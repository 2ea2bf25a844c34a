import SwiftEvent.Core

/-!
# Length-prefix framing

`LengthPrefixFraming.swift`: frames with a 4-byte big-endian length, read with
`readExactly` on top of `Socket.read`.

`read(maxBytes:)` ignores `maxBytes` and returns whatever one `read(2)` of up to
4096 bytes yields, so `readExactly` may get more than it asked for.  What it got
is returned as a whole and never handed to the next call: the bytes of the payload
that came with the header are dropped, those of the next frame become part of the
payload.  The round trip holds if and only if no chunk crosses a boundary between
a header and a payload (`frames_round_trip_iff`).

### Reading the model against the source

* `Reads` are the results of the successive calls of `read`: data or an error.
  When they run out the reader waits for ever, which is `none`.
* A payload of 2^32 bytes or more traps in `UInt32(payload.count)`; the frames
  here are those that do not (`payload.length < 2 ^ 32`).
* `load(as: UInt32.self)` takes the first four bytes of the buffer, in the byte
  order of the host.
-/

namespace SwiftEvent

/-- The results of successive calls of `Socket.read`. -/
abbrev Reads := List (Except SocketError (List UInt8))

/-- Reads that all return data. -/
def Reads.ofChunks (chunks : List (List UInt8)) : Reads := chunks.map .ok

/-! ## 32-bit values in memory -/

/-- The four bytes in which the host stores a 32-bit value. -/
def Endian.store32 : Endian → UInt32 → List UInt8
  | .little, n =>
      [UInt8.ofNat (n.toNat % 256), UInt8.ofNat (n.toNat / 256 % 256),
        UInt8.ofNat (n.toNat / 65536 % 256), UInt8.ofNat (n.toNat / 16777216)]
  | .big, n =>
      [UInt8.ofNat (n.toNat / 16777216), UInt8.ofNat (n.toNat / 65536 % 256),
        UInt8.ofNat (n.toNat / 256 % 256), UInt8.ofNat (n.toNat % 256)]

/-- The 32-bit value the host finds in the first four bytes. -/
def Endian.load32 : Endian → List UInt8 → UInt32
  | .little, b₀ :: b₁ :: b₂ :: b₃ :: _ =>
      UInt32.ofNat (b₀.toNat + 256 * b₁.toNat + 65536 * b₂.toNat + 16777216 * b₃.toNat)
  | .big, b₃ :: b₂ :: b₁ :: b₀ :: _ =>
      UInt32.ofNat (b₀.toNat + 256 * b₁.toNat + 65536 * b₂.toNat + 16777216 * b₃.toNat)
  | _, _ => 0

/-- `UInt32.bigEndian`, which is its own inverse. -/
def Endian.bigEndian32 : Endian → UInt32 → UInt32
  | .little, n =>
      UInt32.ofNat (n.toNat / 16777216 + 256 * (n.toNat / 65536 % 256) +
        65536 * (n.toNat / 256 % 256) + 16777216 * (n.toNat % 256))
  | .big, n => n

@[simp] theorem Endian.length_store32 (endian : Endian) (n : UInt32) :
    (endian.store32 n).length = 4 := by
  cases endian <;> rfl

theorem Endian.load32_store32 (endian : Endian) (n : UInt32) :
    endian.load32 (endian.store32 n) = n := by
  have bound : n.toNat < 4294967296 := n.toNat_lt
  apply UInt32.toNat_inj.mp
  cases endian <;>
    simp only [Endian.store32, Endian.load32, UInt8.toNat_ofNat', UInt32.toNat_ofNat'] <;>
    omega

theorem Endian.bigEndian32_bigEndian32 (endian : Endian) (n : UInt32) :
    endian.bigEndian32 (endian.bigEndian32 n) = n := by
  have bound : n.toNat < 4294967296 := n.toNat_lt
  -- the bytes of a value put together from four bytes
  have bytes : ∀ b₀ b₁ b₂ b₃ : Nat, b₀ < 256 → b₁ < 256 → b₂ < 256 → b₃ < 256 →
      ∀ m, m = b₀ + 256 * b₁ + 65536 * b₂ + 16777216 * b₃ →
        m % 2 ^ 32 = m ∧ m % 256 = b₀ ∧ m / 256 % 256 = b₁ ∧ m / 65536 % 256 = b₂ ∧
          m / 16777216 = b₃ := by
    intro b₀ b₁ b₂ b₃ h₀ h₁ h₂ h₃ m hm
    omega
  cases endian with
  | little =>
      apply UInt32.toNat_inj.mp
      simp only [Endian.bigEndian32, UInt32.toNat_ofNat']
      have whole : n.toNat % 256 + 256 * (n.toNat / 256 % 256) + 65536 * (n.toNat / 65536 % 256) +
          16777216 * (n.toNat / 16777216) = n.toNat := by
        omega
      obtain ⟨fits, e₀, e₁, e₂, e₃⟩ := bytes (n.toNat / 16777216) (n.toNat / 65536 % 256)
        (n.toNat / 256 % 256) (n.toNat % 256) (by omega) (by omega) (by omega) (by omega) _ rfl
      rw [fits, e₀, e₁, e₂, e₃, whole]
      exact Nat.mod_eq_of_lt bound
  | big => rfl

namespace Framing

variable (endian : Endian)

/-! ## Writing -/

/-- The length prefix of a payload. -/
def header (payload : List UInt8) : List UInt8 :=
  endian.store32 (endian.bigEndian32 (UInt32.ofNat payload.length))

/-- The buffer of `writeLengthPrefixedFrame(_:)`. -/
def frame (payload : List UInt8) : List UInt8 := header endian payload ++ payload

/-- What successive `writeLengthPrefixedFrame(_:)` put on the wire. -/
def stream (payloads : List (List UInt8)) : List UInt8 := payloads.flatMap (frame endian)

/-! ## Reading -/

/-- `readExactly(_:)` with what is in its buffer; the count it passes to `read` has
no effect there. -/
def readExactly (count : Nat) (buffer : List UInt8) :
    Reads → Option (Except SocketError (List UInt8) × Reads)
  | [] => if buffer.length < count then none else some (.ok buffer, [])
  | r :: reads =>
      if buffer.length < count then
        match r with
        | .ok chunk =>
            if chunk = [] then some (.error .connectionClosed, reads)
            else readExactly count (buffer ++ chunk) reads
        | .error error => some (.error error, reads)
      else some (.ok buffer, r :: reads)

/-- `readLengthPrefixedFrame()`. -/
def readLengthPrefixedFrame (reads : Reads) :
    Option (Except SocketError (List UInt8) × Reads) :=
  match readExactly 4 [] reads with
  | none => none
  | some (.error error, reads) => some (.error error, reads)
  | some (.ok header, reads) =>
      readExactly (endian.bigEndian32 (endian.load32 header)).toNat [] reads

/-- Successive calls of `readLengthPrefixedFrame()`. -/
def readFrames : Nat → Reads → Option (List (Except SocketError (List UInt8)) × Reads)
  | 0, reads => some ([], reads)
  | n + 1, reads =>
      (readLengthPrefixedFrame endian reads).bind fun (result, reads) =>
        (readFrames n reads).map fun (results, reads) => (result :: results, reads)

/-- The headers and payloads, in the order of the stream. -/
def parts (payloads : List (List UInt8)) : List (List UInt8) :=
  payloads.flatMap fun payload => [header endian payload, payload]

/-- **No chunk crosses the end of a part**: the chunks fall into groups that make up
the parts, one group for each. -/
def Aligned : List (List UInt8) → List (List UInt8) → Prop
  | [], chunks => chunks = []
  | part :: parts, chunks =>
      ∃ group rest, chunks = group ++ rest ∧ group.flatten = part ∧ Aligned parts rest

variable {endian} {payload : List UInt8} {payloads chunks : List (List UInt8)}

@[simp] theorem length_header : (header endian payload).length = 4 :=
  endian.length_store32 _

/-- The reader finds the length the writer stored. -/
theorem length_of_header (short : payload.length < 2 ^ 32) :
    (endian.bigEndian32 (endian.load32 (header endian payload))).toNat = payload.length := by
  rw [header, Endian.load32_store32, Endian.bigEndian32_bigEndian32, UInt32.toNat_ofNat']
  exact Nat.mod_eq_of_lt short

theorem stream_cons : stream endian (payload :: payloads) =
    header endian payload ++ (payload ++ stream endian payloads) := by
  simp [stream, frame]

theorem parts_cons : parts endian (payload :: payloads) =
    header endian payload :: payload :: parts endian payloads := by
  simp [parts]

/-! ## What a call takes from the stream -/

/-- **A call takes whole chunks**, at least as many bytes as it needs, and returns
all of them. -/
theorem readExactly_takes {count : Nat} {buffer data : List UInt8} {rest : Reads}
    (h : readExactly count buffer (.ofChunks chunks) = some (.ok data, rest)) :
    ∃ group after, chunks = group ++ after ∧ rest = .ofChunks after ∧
      data = buffer ++ group.flatten ∧ count ≤ data.length := by
  induction chunks generalizing buffer with
  | nil =>
      simp only [Reads.ofChunks, List.map_nil, readExactly] at h
      split at h
      · cases h
      · next enough =>
          cases h
          exact ⟨[], [], rfl, rfl, by simp, Nat.not_lt.mp enough⟩
  | cons chunk chunks ih =>
      simp only [Reads.ofChunks, List.map_cons, readExactly] at h
      split at h
      · split at h
        · cases h
        · obtain ⟨group, after, rfl, rest, data, enough⟩ := ih h
          exact ⟨chunk :: group, after, rfl, rest, by simp [data], enough⟩
      · next enough =>
          cases h
          exact ⟨[], chunk :: chunks, rfl, rfl, by simp, Nat.not_lt.mp enough⟩

/-- A group of chunks of the right size is taken as a whole, and nothing after it. -/
theorem readExactly_group {count : Nat} {buffer : List UInt8} {group after : List (List UInt8)}
    (nonempty : ∀ chunk ∈ group, chunk ≠ [])
    (size : buffer.length + group.flatten.length = count) :
    readExactly count buffer (.ofChunks (group ++ after)) =
      some (.ok (buffer ++ group.flatten), .ofChunks after) := by
  induction group generalizing buffer with
  | nil =>
      have enough : ¬ buffer.length < count := by
        simp at size
        omega
      cases after with
      | nil => simp [Reads.ofChunks, readExactly, enough]
      | cons chunk after => simp [Reads.ofChunks, readExactly, enough]
  | cons chunk group ih =>
      have some : chunk ≠ [] := nonempty chunk (by simp)
      have positive : 0 < chunk.length := List.length_pos_iff.mpr some
      simp only [List.flatten_cons, List.length_append] at size
      have short : buffer.length < count := by omega
      have size : (buffer ++ chunk).length + group.flatten.length = count := by
        rw [List.length_append]
        omega
      have rest := ih (fun chunk mem => nonempty chunk (List.mem_cons_of_mem _ mem)) size
      simp only [Reads.ofChunks, List.cons_append, List.map_cons, readExactly, if_pos short,
        if_neg some, List.flatten_cons]
      rw [← List.append_assoc]
      exact rest

/-- What a frame takes: a group that covers the header, and a group that is returned
as the payload. -/
theorem readFrame_takes {data : List UInt8} {rest : Reads}
    (h : readLengthPrefixedFrame endian (.ofChunks chunks) = some (.ok data, rest)) :
    ∃ head body after, chunks = head ++ (body ++ after) ∧ rest = .ofChunks after ∧
      4 ≤ head.flatten.length ∧ data = body.flatten := by
  unfold readLengthPrefixedFrame at h
  split at h
  · cases h
  · cases h
  · next first reads hd =>
      obtain ⟨head, after, rfl, rfl, eq, enough⟩ := readExactly_takes hd
      obtain ⟨body, after, rfl, rest, eq', -⟩ := readExactly_takes h
      rw [List.nil_append] at eq eq'
      exact ⟨head, body, after, rfl, rest, eq ▸ enough, eq'⟩

/-- What the first of several frames takes, and what it leaves to the others. -/
theorem readFrames_cons {payload : List UInt8} {rest : Reads}
    (h : readFrames endian (payload :: payloads).length (.ofChunks chunks) =
      some ((payload :: payloads).map .ok, rest)) :
    ∃ head body after, chunks = head ++ (body ++ after) ∧ 4 ≤ head.flatten.length ∧
      payload = body.flatten ∧
      readFrames endian payloads.length (.ofChunks after) = some (payloads.map .ok, rest) := by
  simp only [List.length_cons, readFrames] at h
  obtain ⟨⟨result, reads⟩, first, h⟩ := Option.bind_eq_some_iff.mp h
  obtain ⟨⟨results, reads'⟩, others, eq⟩ := Option.map_eq_some_iff.mp h
  simp only [List.map_cons, Prod.mk.injEq, List.cons.injEq] at eq
  obtain ⟨⟨rfl, rfl⟩, rfl⟩ := eq
  obtain ⟨head, body, after, taken, rfl, enough, payloadEq⟩ := readFrame_takes first
  exact ⟨head, body, after, taken, enough, payloadEq, others⟩

/-- Frames take at least their own size. -/
theorem readFrames_size {rest : Reads}
    (h : readFrames endian payloads.length (.ofChunks chunks) = some (payloads.map .ok, rest)) :
    (stream endian payloads).length ≤ chunks.flatten.length := by
  induction payloads generalizing chunks with
  | nil => simp [stream]
  | cons payload payloads ih =>
      obtain ⟨head, body, after, rfl, enough, rfl, others⟩ := readFrames_cons h
      have size := ih others
      rw [stream_cons]
      simp only [List.flatten_append, List.length_append, length_header]
      omega

/-! ## The round trip -/

theorem aligned_of_readFrames {rest : Reads} (split : chunks.flatten = stream endian payloads)
    (nonempty : ∀ chunk ∈ chunks, chunk ≠ [])
    (h : readFrames endian payloads.length (.ofChunks chunks) = some (payloads.map .ok, rest)) :
    Aligned (parts endian payloads) chunks := by
  induction payloads generalizing chunks with
  | nil =>
      -- nothing was sent, so there is no chunk
      cases chunks with
      | nil => rfl
      | cons chunk chunks =>
          refine absurd ?_ (nonempty chunk (by simp))
          have : chunk ++ chunks.flatten = [] := split
          exact (List.append_eq_nil_iff.mp this).1
  | cons payload payloads ih =>
      obtain ⟨head, body, after, rfl, enough, rfl, others⟩ := readFrames_cons h
      -- the later frames need all the bytes after this one, so the header took four
      have size := readFrames_size others
      rw [stream_cons] at split
      simp only [List.flatten_append] at split
      have total := congrArg List.length split
      simp only [List.length_append, length_header] at total
      obtain ⟨headEq, split⟩ := List.append_inj split (by rw [length_header]; omega)
      obtain ⟨-, split⟩ := List.append_inj split rfl
      rw [parts_cons]
      refine ⟨head, body ++ after, rfl, headEq, body, after, rfl, rfl, ?_⟩
      exact ih split (fun chunk mem => nonempty chunk (by simp [mem])) others

theorem readFrames_of_aligned (short : ∀ payload ∈ payloads, payload.length < 2 ^ 32)
    (nonempty : ∀ chunk ∈ chunks, chunk ≠ []) (aligned : Aligned (parts endian payloads) chunks) :
    readFrames endian payloads.length (.ofChunks chunks) = some (payloads.map .ok, []) := by
  induction payloads generalizing chunks with
  | nil =>
      obtain rfl : chunks = [] := aligned
      rfl
  | cons payload payloads ih =>
      rw [parts_cons] at aligned
      obtain ⟨head, rest, rfl, headEq, body, after, rfl, bodyEq, aligned⟩ := aligned
      have first : readExactly 4 [] (.ofChunks (head ++ (body ++ after))) =
          some (.ok (header endian payload), .ofChunks (body ++ after)) := by
        rw [readExactly_group (fun chunk mem => nonempty chunk (by simp [mem]))
          (by simp [headEq]), headEq, List.nil_append]
      have length : (endian.bigEndian32 (endian.load32 (header endian payload))).toNat =
          payload.length := length_of_header (short payload (by simp))
      have second : readExactly payload.length [] (.ofChunks (body ++ after)) =
          some (.ok payload, .ofChunks after) := by
        rw [readExactly_group (fun chunk mem => nonempty chunk (by simp [mem]))
          (by simp [bodyEq]), bodyEq, List.nil_append]
      have others := ih (fun payload mem => short payload (by simp [mem]))
        (fun chunk mem => nonempty chunk (by simp [mem])) aligned
      simp only [List.length_cons, readFrames, readLengthPrefixedFrame, first, length, second,
        Option.bind_some, others, Option.map_some, List.map_cons]

/-- **The round trip holds if and only if no chunk crosses the end of a header or of
a payload.** -/
theorem frames_round_trip_iff (short : ∀ payload ∈ payloads, payload.length < 2 ^ 32)
    (nonempty : ∀ chunk ∈ chunks, chunk ≠ []) (split : chunks.flatten = stream endian payloads) :
    (∃ rest, readFrames endian payloads.length (.ofChunks chunks) =
      some (payloads.map .ok, rest)) ↔ Aligned (parts endian payloads) chunks :=
  ⟨fun ⟨_, h⟩ => aligned_of_readFrames split nonempty h,
    fun aligned => ⟨[], readFrames_of_aligned short nonempty aligned⟩⟩

/-- Two frames, the header of the first in two chunks. -/
theorem frames_round_trip_aligned :
    ∃ rest, readFrames .little 2 (.ofChunks [[0, 0, 0], [2], [7, 8], [0, 0, 0, 0]]) =
      some ([.ok [7, 8], .ok []], rest) := by
  have split : [[0, 0, 0], [2], [7, 8], [0, 0, 0, 0]].flatten = stream .little [[7, 8], []] := by
    decide
  exact (frames_round_trip_iff (by decide) (by decide) split).mpr
    ⟨[[0, 0, 0], [2]], _, rfl, by decide, [[7, 8]], _, rfl, rfl, [[0, 0, 0, 0]], _, rfl, by decide,
      [], _, rfl, rfl, rfl⟩

/-- **A frame that arrives in one piece is not returned.**  The payload comes with
the header, is dropped, and the reader waits for it for ever. -/
theorem frame_in_one_chunk :
    let chunks : List (List UInt8) := [[0, 0, 0, 1, 7]]
    chunks.flatten = stream .little [[7]] ∧ (∀ chunk ∈ chunks, chunk ≠ []) ∧
      readFrames .little 1 (.ofChunks chunks) = none := by
  refine ⟨by decide, by decide, by rfl⟩

end Framing

end SwiftEvent
