import Webshell.Terminals.Scrollback

/-!
# What the ring holds and a cut sends

The ring, the tracker and the cuts as functions of the stream alone, however it was cut up into
chunks, for every capacity and every offset.

## Main definitions

- `kept`: how much of a stream a ring holds

## Main results

- `Scrollback.Holds.cut_eq`: a cut, from the stream and the capacity
- `Scrollback.ring_and_cut`: the ring and its cuts after any pushes
-/

namespace Webshell

/-- The number of bytes that a ring has of a stream. -/
def kept (cap : ℕ) (stream : List UInt8) : ℕ := min stream.length cap

/-- Where the ring begins. -/
def ringStart (cap : ℕ) (stream : List UInt8) : ℕ := stream.length - kept cap stream

theorem ringStart_eq (cap : ℕ) (stream : List UInt8) :
    ringStart cap stream = stream.length - cap := by
  rw [ringStart, kept]
  omega

theorem kept_le (cap : ℕ) (stream : List UInt8) : kept cap stream ≤ stream.length :=
  min_le_left _ _

theorem length_drop_ringStart (cap : ℕ) (stream : List UInt8) :
    (stream.drop (ringStart cap stream)).length = kept cap stream := by
  have hle := kept_le cap stream
  rw [List.length_drop, ringStart]
  omega

namespace Scrollback

variable {P : Type} {s : Scrollback P} {stream : List UInt8}

theorem Holds.buf_eq (h : s.Holds stream) : s.buf = stream.drop (ringStart s.cap stream) := by
  rw [ringStart_eq, h.buf]

theorem Holds.length_buf (h : s.Holds stream) : s.buf.length = kept s.cap stream := by
  rw [h.buf_eq, length_drop_ringStart]

/-- The two subtractions of a replay and of a resume stay above zero. -/
theorem Holds.length_buf_le (h : s.Holds stream) : s.buf.length ≤ s.total := by
  rw [h.length_buf, h.total]
  exact kept_le ..

theorem Holds.cut_none (h : s.Holds stream) :
    s.cut none = (.replay, ringStart s.cap stream, s.buf) := by
  show (AttachMode.replay, s.total - s.buf.length, s.buf) = _
  rw [h.total, h.length_buf, ringStart]

/-- An offset within the ring is the client's; any other gets what no offset gets. -/
theorem Holds.cut_eq (h : s.Holds stream) (off : ℕ) :
    s.cut (some off) =
      if ringStart s.cap stream ≤ off ∧ off ≤ stream.length then (.resume, off, stream.drop off)
      else (.replay, ringStart s.cap stream, s.buf) := by
  have hkept := kept_le s.cap stream
  have hin : (off ≤ s.total ∧ s.total - off ≤ s.buf.length) ↔
      ringStart s.cap stream ≤ off ∧ off ≤ stream.length := by
    rw [h.total, h.length_buf, ringStart]
    omega
  by_cases hoff : ringStart s.cap stream ≤ off ∧ off ≤ stream.length
  · -- the ring is the stream from its start on, so that both drop up to the same byte
    have hdrop : s.buf.drop (s.buf.length - (s.total - off)) = stream.drop off := by
      have hstart : ringStart s.cap stream + (s.buf.length - (s.total - off)) = off := by
        rw [h.length_buf, h.total]
        rw [ringStart] at hoff ⊢
        omega
      rw [h.buf_eq, List.drop_drop, ← h.buf_eq, hstart]
    rw [if_pos hoff, cut, if_pos (hin.mpr hoff), hdrop]
  · rw [if_neg hoff, ← h.cut_none, cut, if_neg fun hcode => hoff (hin.mp hcode)]
    rfl

/-- What is sent is the end of the ring from the base on, and the base says where that is. -/
theorem Holds.cut_ends (h : s.Holds stream) (offset : Option ℕ) :
    (s.cut offset).2.2 <:+ s.buf ∧
      (s.cut offset).2.1 + (s.cut offset).2.2.length = s.total := by
  have hreplay : s.buf <:+ s.buf ∧ ringStart s.cap stream + s.buf.length = s.total := by
    have hle := kept_le s.cap stream
    refine ⟨List.suffix_rfl, ?_⟩
    rw [h.length_buf, h.total, ringStart]
    omega
  cases offset with
  | none =>
    rw [h.cut_none]
    exact hreplay
  | some off =>
    rw [h.cut_eq]
    split
    next hoff =>
      constructor
      · obtain ⟨more, rfl⟩ := Nat.exists_eq_add_of_le hoff.1
        rw [h.buf_eq, ← List.drop_drop]
        exact List.drop_suffix _ _
      · show off + (stream.drop off).length = s.total
        rw [List.length_drop, h.total]
        omega
    next => exact hreplay

variable [Vt100 P]

/-- **The ring and its cuts.** However a stream was cut up into chunks, the ring holds its last
bytes, the tracker has read the others, and an offset resumes exactly if it lies between the start
of the ring and the end of the stream; every other client gets the whole ring. Nothing that is
subtracted is larger than what it is subtracted from. -/
theorem ring_and_cut (cap cols rows : ℕ) (chunks : List (List UInt8)) :
    let s : Scrollback P := chunks.foldl push (new cap cols rows)
    let stream := chunks.flatten
    let start := stream.length - min stream.length cap
    (s.buf = stream.drop start ∧ s.buf.length = min stream.length cap ∧
      s.total = stream.length ∧ s.frontState = ModeTracker.new.feed (stream.take start)) ∧
    s.cut none = (.replay, s.total - s.buf.length, s.buf) ∧
    (∀ off, s.cut (some off) =
      if start ≤ off ∧ off ≤ s.total then (.resume, off, stream.drop off) else s.cut none) ∧
    (∀ offset, (s.cut offset).2.2 <:+ s.buf ∧
      (s.cut offset).2.1 + (s.cut offset).2.2.length = s.total) ∧
    s.buf.length ≤ s.total ∧
    ∀ off, start ≤ off ∧ off ≤ s.total → s.total - off ≤ s.buf.length := by
  intro s stream start
  obtain ⟨hs, hcap⟩ := holds_pushes (P := P) cap cols rows chunks
  have hstart : ringStart s.cap stream = start := by rw [hcap]; rfl
  have hlength : s.buf.length = min stream.length cap := by rw [hs.length_buf, hcap]; rfl
  refine ⟨⟨?_, hlength, hs.total, ?_⟩, rfl, fun off => ?_, hs.cut_ends, hs.length_buf_le,
    fun off hoff => ?_⟩
  · rw [← hstart]
    exact hs.buf_eq
  · rw [← hstart, ringStart_eq]
    exact hs.frontState
  · rw [hs.cut_none, hs.cut_eq, hstart, hs.total]
  · have htotal : s.total = stream.length := hs.total
    have hbegin : start = stream.length - min stream.length cap := rfl
    rw [hlength]
    omega

end Scrollback

end Webshell
