import SwiftEvent.Framing
import SwiftEvent.Library.Delimited
import SwiftEvent.Library.Run

/-!
# Delimiter framing

`DelimiterFraming.swift`: lines ended by CRLF, read with `readLine(timeout:into:)`
into a `LineBuffer` that keeps what came after the delimiter.

`readLine` is the function of the source.  A `Session` is the same loop step by
step, with what a caller has got so far: it shows the moments inside a call too,
and `readLine_run` says that a call of `readLine` is a run of it.  In every state
of every session the lines returned are the first segments of the stream, cut at
the leftmost CRLF pairs, and the buffer holds the rest (`lines_of_stream`), no
matter how the stream was split into chunks and where reads timed out.
-/

namespace SwiftEvent

namespace Lines

/-- `Data("\r\n".utf8)`. -/
def crlf : List UInt8 := [13, 10]

/-- The lower bound of `buffer.data.range(of: crlf)`. -/
def rangeOfCrlf (data : List UInt8) : Option Nat := Delimited.find 13 10 data

/-- `readLine(timeout:into:)` with the contents of the `LineBuffer`: the result, the
contents afterwards and the reads that are left; `none` when it waits for ever. -/
def readLine (buffer : List UInt8) :
    Reads → Option (Except SocketError (List UInt8) × List UInt8 × Reads)
  | [] =>
      match rangeOfCrlf buffer with
      | some lower => some (.ok (buffer.take lower), buffer.drop (lower + 2), [])
      | none => none
  | r :: reads =>
      match rangeOfCrlf buffer with
      | some lower => some (.ok (buffer.take lower), buffer.drop (lower + 2), r :: reads)
      | none =>
          match r with
          | .ok chunk =>
              if chunk = [] then some (.error .connectionClosed, buffer, reads)
              else readLine (buffer ++ chunk) reads
          | .error error => some (.error error, buffer, reads)

/-! ## Sessions -/

/-- A caller that calls `readLine` again and again with one `LineBuffer`. -/
structure Session where
  buffer : List UInt8 := []
  /-- Whether a call of `readLine` is on its way. -/
  calling : Bool := false
  /-- The lines returned so far. -/
  lines : List (List UInt8) := []
  /-- The bytes read so far. -/
  received : List UInt8 := []

namespace Session

inductive Act
  | call
  | found
  | read (r : Except SocketError (List UInt8))

/-- The bytes a step reads. -/
def Act.bytes : Act → List UInt8
  | .read (.ok chunk) => chunk
  | _ => []

/-- One step: a call begins, finds a line and returns it, or reads. -/
def step (s : Session) : Act → Option Session
  | .call => if s.calling then none else some { s with calling := true }
  | .found =>
      if s.calling then
        (rangeOfCrlf s.buffer).map fun lower =>
          { s with
            calling := false
            lines := s.lines ++ [s.buffer.take lower]
            buffer := s.buffer.drop (lower + 2) }
      else none
  | .read r =>
      if s.calling ∧ rangeOfCrlf s.buffer = none then
        match r with
        | .ok chunk =>
            if chunk = [] then some { s with calling := false }
            else some { s with buffer := s.buffer ++ chunk, received := s.received ++ chunk }
        | .error _ => some { s with calling := false }
      else none

variable {s s' : Session}

/-- The lines have been cut off the front of the stream, and the buffer holds the
rest. -/
def Framed (s : Session) : Prop := Delimited.Cut 13 10 s.lines s.received s.buffer

theorem Framed.step {a : Act} (h : s.Framed) (hs : s.step a = some s') : s'.Framed := by
  cases a with
  | call =>
      simp only [Session.step] at hs
      split at hs
      · cases hs
      · cases hs
        exact h
  | found =>
      simp only [Session.step] at hs
      split at hs
      · obtain ⟨lower, hl, rfl⟩ := Option.map_eq_some_iff.mp hs
        exact h.snoc hl
      · cases hs
  | read r =>
      simp only [Session.step] at hs
      split at hs
      · split at hs
        · next chunk =>
            split at hs
            · cases hs
              exact h
            · cases hs
              exact h.append chunk
        · cases hs
          exact h
      · cases hs

theorem framed_run {as : List Act} (run : StepSystem.run step {} as = some s) : s.Framed := by
  have start : Framed {} := .nil []
  exact StepSystem.invariant_run (P := Framed) (fun _ _ _ h hs => h.step hs) start run

theorem received_step {a : Act} (hs : s.step a = some s') :
    s'.received = s.received ++ a.bytes := by
  cases a with
  | call =>
      simp only [Session.step] at hs
      split at hs
      · cases hs
      · cases hs
        exact (List.append_nil _).symm
  | found =>
      simp only [Session.step] at hs
      split at hs
      · obtain ⟨lower, hl, rfl⟩ := Option.map_eq_some_iff.mp hs
        exact (List.append_nil _).symm
      · cases hs
  | read r =>
      simp only [Session.step] at hs
      split at hs
      · split at hs
        · next chunk =>
            split at hs
            · next closed =>
                cases hs
                rw [closed]
                exact (List.append_nil _).symm
            · cases hs
              rfl
        · cases hs
          exact (List.append_nil _).symm
      · cases hs

/-- What has been received is what the reads returned. -/
theorem received_run {as : List Act} (run : StepSystem.run step s as = some s') :
    s'.received = s.received ++ as.flatMap Act.bytes := by
  induction as generalizing s with
  | nil =>
      cases run
      exact (List.append_nil _).symm
  | cons a as ih =>
      obtain ⟨t, first, later⟩ := StepSystem.run_cons_eq_some.mp run
      rw [ih later, received_step first, List.append_assoc, List.flatMap_cons]

/-- A call that finds a line returns it. -/
theorem step_found (calling : s.calling = true) {lower : Nat}
    (h : rangeOfCrlf s.buffer = some lower) :
    s.step .found = some
      { s with
        calling := false
        lines := s.lines ++ [s.buffer.take lower]
        buffer := s.buffer.drop (lower + 2) } := by
  simp [step, calling, h]

/-- **A call of `readLine` is a run of the session**: it makes the reads it consumes,
and ends with a line or with the error of its last read. -/
theorem readLine_run {reads rest : Reads} {buffer : List UInt8}
    {result : Except SocketError (List UInt8)} (calling : s.calling = true)
    (h : readLine s.buffer reads = some (result, buffer, rest)) :
    ∃ made s', reads = made ++ rest ∧
      StepSystem.run step s (made.map .read ++ (if result.isOk then [.found] else [])) = some s' ∧
      s'.buffer = buffer ∧ s'.calling = false ∧
      s'.lines = s.lines ++ result.toOption.toList := by
  induction reads generalizing s with
  | nil =>
      unfold readLine at h
      split at h
      · next lower hl =>
          cases h
          exact ⟨[], _, rfl, StepSystem.run_cons_eq_some.mpr ⟨_, step_found calling hl, rfl⟩, rfl, rfl,
            rfl⟩
      · cases h
  | cons r reads ih =>
      unfold readLine at h
      split at h
      · next lower hl =>
          cases h
          exact ⟨[], _, rfl, StepSystem.run_cons_eq_some.mpr ⟨_, step_found calling hl, rfl⟩, rfl, rfl,
            rfl⟩
      · next empty =>
          split at h
          · next chunk =>
              split at h
              · next closed =>
                  cases h
                  refine ⟨[.ok chunk], { s with calling := false }, rfl, ?_, rfl, rfl, ?_⟩
                  · simp [StepSystem.run, step, calling, empty, closed, Except.isOk, Except.toBool]
                  · simp [Except.toOption]
              · next some =>
                  have read : s.step (.read (.ok chunk)) = Option.some
                      { s with buffer := s.buffer ++ chunk, received := s.received ++ chunk } := by
                    simp [step, calling, empty, some]
                  obtain ⟨made, s', eq, run, rest⟩ := ih (s := { s with
                    buffer := s.buffer ++ chunk, received := s.received ++ chunk }) calling h
                  refine ⟨.ok chunk :: made, s', by rw [eq]; rfl, ?_, rest⟩
                  rw [List.map_cons, List.cons_append, StepSystem.run_cons_eq_some]
                  exact ⟨_, read, run⟩
          · next error =>
              cases h
              refine ⟨[.error error], { s with calling := false }, rfl, ?_, rfl, rfl, ?_⟩
              · simp [StepSystem.run, step, calling, empty, Except.isOk, Except.toBool]
              · simp [Except.toOption]

end Session

/-! ## Successive calls -/

/-- The bytes the reads return. -/
def bytes (reads : Reads) : List UInt8 := reads.flatMap fun r => r.toOption.getD []

/-- The lines returned by successive calls with one `LineBuffer`, at most `n` of them.  A
call that threw is made again; after a call that waits for ever there is none. -/
def readLines : Nat → List UInt8 → Reads → List (List UInt8)
  | 0, _, _ => []
  | n + 1, buffer, reads =>
      match readLine buffer reads with
      | some (result, buffer', rest) => result.toOption.toList ++ readLines n buffer' rest
      | none => []

variable {buffer buffer' : List UInt8} {reads rest : Reads}
  {result : Except SocketError (List UInt8)}

/-- A call that ends cuts its line, if it returns one, off the bytes it had; one that throws
has made a read. -/
theorem readLine_cut (h : readLine buffer reads = some (result, buffer', rest)) :
    ∃ made, reads = made ++ rest ∧
      Delimited.Cut 13 10 result.toOption.toList (buffer ++ bytes made) buffer' ∧
      (result.toOption = none → made ≠ []) := by
  induction reads generalizing buffer with
  | nil =>
      unfold readLine at h
      split at h
      · next lower hl =>
          cases h
          refine ⟨[], rfl, ?_, fun e => nomatch e⟩
          show Delimited.Cut 13 10 _ (buffer ++ []) _
          rw [List.append_nil]
          exact .cons hl (.nil _)
      · cases h
  | cons r reads ih =>
      unfold readLine at h
      split at h
      · next lower hl =>
          cases h
          refine ⟨[], rfl, ?_, fun e => nomatch e⟩
          show Delimited.Cut 13 10 _ (buffer ++ []) _
          rw [List.append_nil]
          exact .cons hl (.nil _)
      · split at h
        · next chunk =>
            split at h
            · next closed =>
                cases h
                refine ⟨[.ok chunk], rfl, ?_, fun _ => List.cons_ne_nil _ _⟩
                subst closed
                show Delimited.Cut 13 10 [] (buffer' ++ []) _
                rw [List.append_nil]
                exact .nil _
            · obtain ⟨made, eq, cut, -⟩ := ih h
              refine ⟨.ok chunk :: made, by rw [eq]; rfl, ?_, fun _ => List.cons_ne_nil _ _⟩
              rwa [List.append_assoc] at cut
        · next error =>
            cases h
            refine ⟨[.error error], rfl, ?_, fun _ => List.cons_ne_nil _ _⟩
            show Delimited.Cut 13 10 [] (buffer' ++ []) _
            rw [List.append_nil]
            exact .nil _

/-- A call that waits for ever has read everything and found no delimiter. -/
theorem find_of_readLine_none (h : readLine buffer reads = none) :
    Delimited.find 13 10 (buffer ++ bytes reads) = none := by
  induction reads generalizing buffer with
  | nil =>
      unfold readLine at h
      split at h
      · cases h
      · next empty =>
          show Delimited.find 13 10 (buffer ++ []) = none
          rwa [List.append_nil]
  | cons r reads ih =>
      unfold readLine at h
      split at h
      · cases h
      · split at h
        · next chunk =>
            split at h
            · cases h
            · have := ih h
              rwa [List.append_assoc] at this
        · cases h

/-- Enough calls return the segments of everything there is to read. -/
theorem readLines_eq {n : Nat}
    (enough : reads.length + (buffer ++ bytes reads).length < n) :
    readLines n buffer reads = (Delimited.split 13 10 (buffer ++ bytes reads)).1 := by
  induction n generalizing buffer reads with
  | zero => omega
  | succ n ih =>
      rw [readLines]
      cases call : readLine buffer reads with
      | none => rw [Delimited.split_of_find_none (find_of_readLine_none call)]
      | some out =>
          obtain ⟨result, buffer', rest⟩ := out
          obtain ⟨made, rfl, cut, progress⟩ := readLine_cut call
          have stream : buffer ++ bytes (made ++ rest) = buffer ++ bytes made ++ bytes rest := by
            rw [bytes, List.flatMap_append, ← List.append_assoc]
            rfl
          have grown := cut.append (bytes rest)
          have spelled := congrArg List.length cut.spells
          -- a line takes its delimiter with it, an error a read
          have less : rest.length + (buffer' ++ bytes rest).length < n := by
            rw [stream] at enough
            simp only [List.length_append] at enough spelled ⊢
            cases got : result.toOption with
            | none =>
                have := List.length_pos_of_ne_nil (progress got)
                rw [got] at spelled
                simp only [Option.toList_none, List.flatMap_nil, List.length_nil] at spelled
                omega
            | some line =>
                rw [got] at spelled
                simp only [Option.toList_some, List.flatMap_cons, List.flatMap_nil,
                  List.length_append, List.length_cons, List.length_nil] at spelled
                omega
          show result.toOption.toList ++ readLines n buffer' rest = _
          rw [ih less, stream, grown.split]

/-- **The lines of a stream.**  In every state of every session the lines returned, each
followed by CRLF, and then the buffer spell the bytes read so far; they are the first
segments of those bytes, cut at the leftmost CRLF pairs, and the segments still to come
are those of the buffer; a read is made only when the buffer holds no CRLF.  For all
reads, however they cut the stream and wherever they throw, enough successive calls of
`readLine` return exactly the segments of the stream. -/
theorem lines_of_stream :
    (∀ as s, StepSystem.run Session.step {} as = some s →
      s.received = as.flatMap Session.Act.bytes ∧
      s.received = s.lines.flatMap (· ++ crlf) ++ s.buffer ∧
      (Delimited.split 13 10 s.received).1 =
        s.lines ++ (Delimited.split 13 10 s.buffer).1 ∧
      (rangeOfCrlf s.buffer = none → Delimited.split 13 10 s.received = (s.lines, s.buffer)) ∧
      (∀ r s', s.step (.read r) = some s' → rangeOfCrlf s.buffer = none) ∧
      (∀ reads result buffer rest, s.calling = true →
        readLine s.buffer reads = some (result, buffer, rest) →
        ∃ made s', reads = made ++ rest ∧
          StepSystem.run Session.step s
            (made.map .read ++ (if result.isOk then [.found] else [])) = some s' ∧
          s'.buffer = buffer ∧ s'.calling = false ∧
          s'.lines = s.lines ++ result.toOption.toList)) ∧
    (∀ (reads : Reads) (n : Nat), reads.length + (bytes reads).length < n →
      readLines n [] reads = (Delimited.split 13 10 (bytes reads)).1) := by
  refine ⟨fun as s run => ?_, fun reads n enough => readLines_eq (by simpa using enough)⟩
  have framed : Delimited.Cut 13 10 s.lines s.received s.buffer := Session.framed_run run
  refine ⟨Session.received_run run, framed.spells, congrArg Prod.fst framed.split, fun none => ?_, fun r s' hs => ?_,
    fun reads result buffer rest calling h => Session.readLine_run calling h⟩
  · rw [framed.split, Delimited.split_of_find_none none, List.append_nil]
  · simp only [Session.step] at hs
    split at hs
    · next free => exact free.2
    · cases hs

/-- A CRLF between two chunks, with a timeout in between. -/
theorem lines_of_stream_straddling :
    readLines 12 [] [.ok [97, 13], .error .timeout, .ok [10, 98, 13, 10, 13]] = [[97], [98]] :=
  (lines_of_stream.2 _ 12 (by decide)).trans (by decide)

end Lines

end SwiftEvent
