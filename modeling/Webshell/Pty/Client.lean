import Webshell.Lib.Along
import Webshell.Terminals.Attach

/-!
# What a client does with its frames

The frames of one slot, and the client that counts the stream by them: a replay hello restarts
it, a resume hello leaves it what it has, data is appended. Data that arrives between an open
and its hello belongs to the attachment being replaced and is dropped.

## Main definitions

- `Frame`: the frames a slot's client is sent
- `View.receive`: the client's reaction to a frame

## Main results

- `foldl_receive_of_replay`: a replay hello makes the client forget what it held
- `foldl_receive_of_awaiting`: without a hello, a client that awaits one stays as it is
-/

namespace Webshell

/-- The `reason` of a closed frame. -/
inductive Reason
  | exit
  | error
deriving DecidableEq

inductive Frame
  | hello (mode : AttachMode) (epoch offset : ℕ) (init : List UInt8)
  | data (bytes : List UInt8)
  | closed (reason : Reason)
  | redraw (cols rows : ℕ) (screen : List UInt8)
deriving DecidableEq

/-- `hello_json`. -/
def Attachment.hello (att : Attachment) : Frame :=
  .hello att.mode att.epoch att.baseOffset att.init

/-- `redraw_json`. -/
def Redraw.frame (r : Redraw) : Frame := .redraw r.cols r.rows r.screen

/-- The bytes a client holds of the shell `epoch`: they start at `base`, and `offset` counts the
stream. -/
structure Held where
  epoch : ℕ
  base : ℕ
  offset : ℕ
  bytes : List UInt8
deriving DecidableEq

/-- A client's side of a slot: what it holds, and whether it drops data until the next hello. -/
structure View where
  held : Option Held
  awaiting : Bool

/-- The modes of the hellos among some frames. -/
def helloModes (frames : List Frame) : List AttachMode :=
  frames.filterMap fun
    | .hello mode _ _ _ => some mode
    | _ => none

/-- The bytes of some data frames. -/
def dataBytes (frames : List Frame) : List UInt8 :=
  frames.flatMap fun
    | .data bytes => bytes
    | _ => []

namespace View

def receive (v : View) : Frame → View
  | .hello .replay epoch offset _ => ⟨some ⟨epoch, offset, offset, []⟩, false⟩
  | .hello .resume epoch offset _ =>
    ⟨v.held.map fun h => { h with epoch := epoch, offset := offset }, false⟩
  | .data bytes =>
    if v.awaiting then v
    else ⟨v.held.map fun h =>
      { h with offset := h.offset + bytes.length, bytes := h.bytes ++ bytes }, false⟩
  | .closed _ => v
  | .redraw _ _ _ => v

/-- The epoch and offset an open may carry. -/
def position (v : View) : Option (ℕ × ℕ) := v.held.map fun h => (h.epoch, h.offset)

def sendOpen (v : View) : View := { v with awaiting := true }

end View

theorem helloModes_append (a b : List Frame) : helloModes (a ++ b) = helloModes a ++ helloModes b :=
  List.filterMap_append

theorem helloModes_data (chunks : List (List UInt8)) : helloModes (chunks.map Frame.data) = [] := by
  induction chunks with
  | nil => rfl
  | cons _ chunks ih => exact ih

theorem dataBytes_append (a b : List Frame) : dataBytes (a ++ b) = dataBytes a ++ dataBytes b :=
  List.flatMap_append

theorem dataBytes_data (chunks : List (List UInt8)) :
    dataBytes (chunks.map Frame.data) = chunks.flatten := by
  induction chunks with
  | nil => rfl
  | cons chunk chunks ih =>
    rw [List.map_cons, List.flatten_cons, ← ih]
    rfl

/-- A client that awaits a hello does not react to anything else. -/
theorem receive_of_awaiting {v : View} (hv : v.awaiting = true) {f : Frame}
    (hf : helloModes [f] = []) : v.receive f = v := by
  cases f with
  | hello => cases hf
  | data => exact if_pos hv
  | closed => rfl
  | redraw => rfl

theorem helloModes_cons (f : Frame) (frames : List Frame) :
    helloModes (f :: frames) = helloModes [f] ++ helloModes frames :=
  helloModes_append [f] frames

theorem foldl_receive_of_awaiting {v : View} (hv : v.awaiting = true) {frames : List Frame}
    (hf : helloModes frames = []) : frames.foldl View.receive v = v := by
  induction frames with
  | nil => rfl
  | cons f frames ih =>
    rw [helloModes_cons, List.append_eq_nil_iff] at hf
    rw [List.foldl_cons, receive_of_awaiting hv hf.1, ih hf.2]

theorem along_of_awaiting {P : View → Prop} {v : View} (hv : v.awaiting = true) (hP : P v)
    {frames : List Frame} (hf : helloModes frames = []) : Along P View.receive v frames := by
  induction frames with
  | nil => exact hP
  | cons f frames ih =>
    rw [helloModes_cons, List.append_eq_nil_iff] at hf
    exact ⟨hP, by rw [receive_of_awaiting hv hf.1]; exact ih hf.2⟩

/-- A replay hello makes the client forget what it held. -/
theorem foldl_receive_of_replay {frames : List Frame}
    (hf : (helloModes frames).head? = some .replay) (v w : View) :
    frames.foldl View.receive v = frames.foldl View.receive w := by
  induction frames generalizing v w with
  | nil => cases hf
  | cons f frames ih =>
    rw [List.foldl_cons, List.foldl_cons]
    cases f with
    | hello mode epoch offset init =>
      obtain rfl : mode = .replay := Option.some.inj hf
      rfl
    | data => exact ih hf _ _
    | closed => exact ih hf _ _
    | redraw => exact ih hf _ _

/-- Up to a replay hello, a client that awaits one stays as it is. -/
theorem along_of_replay {P : View → Prop} {frames : List Frame}
    (hf : (helloModes frames).head? = some .replay) {v w : View}
    (hv : Along P View.receive v frames) (hw : w.awaiting = true) (hP : P w) :
    Along P View.receive w frames := by
  induction frames generalizing v with
  | nil => cases hf
  | cons f frames ih =>
    refine ⟨hP, ?_⟩
    cases f with
    | hello mode epoch offset init =>
      obtain rfl : mode = .replay := Option.some.inj hf
      exact hv.2
    | data => rw [receive_of_awaiting hw rfl]; exact ih hf hv.2
    | closed => exact ih hf hv.2
    | redraw => exact ih hf hv.2

end Webshell
