import Webshell.Terminals.Scrollback

/-!
# The screen model

The server's own screen is fed what the clients get. A resize does not change it, but marks it
stale, and the next snapshot builds it anew from the ring, at the size of then.

## Main definitions

- `Renders`: an emulator of some grid that shows a stream
- `Scrollback.Shows`: unless it is stale, the screen renders the stream at the current size

## Main results

- `Scrollback.Shows.screenSnapshot`: a snapshot is of a screen that renders the stream
-/

namespace Webshell

variable {P : Type} [Vt100 P]

/-- `p` is an emulator of that grid and was fed the stream, in some chunks: all of it, or what
follows some part of it after the modes that part sets. -/
def Renders (cols rows : ℕ) (stream : List UInt8) (p : P) : Prop :=
  ∃ start ≤ stream.length, ∃ modes chunks : List (List UInt8),
    (start = 0 ∧ modes = [] ∨ modes = [(ModeTracker.new.feed (stream.take start)).synth]) ∧
    chunks.flatten = stream.drop start ∧
    p = (modes ++ chunks).foldl Vt100.process (Vt100.parser rows cols)

theorem renders_fresh (cols rows : ℕ) : Renders cols rows [] (Vt100.parser rows cols : P) :=
  ⟨0, le_rfl, [], [], .inl ⟨rfl, rfl⟩, rfl, rfl⟩

theorem Renders.process {cols rows : ℕ} {stream : List UInt8} {p : P}
    (h : Renders cols rows stream p) (data : List UInt8) :
    Renders cols rows (stream ++ data) (Vt100.process p data) := by
  obtain ⟨start, hstart, modes, chunks, hmodes, hchunks, rfl⟩ := h
  refine ⟨start, ?_, modes, chunks ++ [data], ?_, ?_, ?_⟩
  · rw [List.length_append]
    omega
  · rw [List.take_append_of_le_length hstart]
    exact hmodes
  · rw [List.flatten_append, List.flatten_singleton, hchunks,
      List.drop_append_of_le_length hstart]
  · rw [← List.append_assoc, List.foldl_concat]

namespace Scrollback

/-- A size that is not degenerate is the grid of the emulator. -/
theorem screenModel_eq {cols rows : ℕ} (hcols : 0 < cols) (hrows : 0 < rows) :
    (screenModel cols rows : P) = Vt100.parser rows cols := by
  rw [screenModel, Nat.max_eq_left hrows, Nat.max_eq_left hcols]

/-- The ring has a proper size, and unless it is stale its screen renders the stream there. -/
structure Shows (s : Scrollback P) (stream : List UInt8) : Prop where
  cols_pos : 0 < s.size.1
  rows_pos : 0 < s.size.2
  screen : s.stale = false → Renders s.size.1 s.size.2 stream s.screen

theorem shows_new (cap : ℕ) {cols rows : ℕ} (hcols : 0 < cols) (hrows : 0 < rows) :
    (new cap cols rows : Scrollback P).Shows [] := by
  refine ⟨hcols, hrows, fun _ => ?_⟩
  have hscreen : (new cap cols rows : Scrollback P).screen = Vt100.parser rows cols :=
    screenModel_eq hcols hrows
  rw [hscreen]
  exact renders_fresh cols rows

variable {s : Scrollback P} {stream : List UInt8}

theorem Shows.push (h : s.Shows stream) (data : List UInt8) :
    (s.push data).Shows (stream ++ data) :=
  ⟨h.cols_pos, h.rows_pos, fun hstale => (h.screen hstale).process data⟩

theorem Shows.resize (h : s.Shows stream) {cols rows : ℕ} (hcols : 0 < cols) (hrows : 0 < rows) :
    (s.resize cols rows).Shows stream := by
  unfold Scrollback.resize
  split
  · exact ⟨hcols, hrows, nofun⟩
  · exact h

/-- A snapshot leaves the size alone, and is of a screen of that size that renders the stream. -/
theorem Shows.screenSnapshot (h : s.Shows stream) (hs : s.Holds stream) :
    s.screenSnapshot.2.Shows stream ∧ s.screenSnapshot.2.stale = false ∧
      s.screenSnapshot.2.size = s.size ∧
      s.screenSnapshot.1 = Vt100.contentsFormatted s.screenSnapshot.2.screen := by
  unfold Scrollback.screenSnapshot
  cases hstale : s.stale with
  | true =>
    refine ⟨⟨h.cols_pos, h.rows_pos, fun _ => ?_⟩, rfl, rfl, rfl⟩
    refine ⟨stream.length - s.cap, Nat.sub_le _ _, [s.frontInit], [s.buf], .inr ?_, ?_, ?_⟩
    · rw [frontInit, hs.frontState]
    · rw [List.flatten_singleton, hs.buf]
    · change Vt100.process (Vt100.process (screenModel s.size.1 s.size.2) s.frontInit) s.buf = _
      rw [screenModel_eq h.cols_pos h.rows_pos]
      rfl
  | false => exact ⟨h, hstale, rfl, rfl⟩

end Scrollback

end Webshell
