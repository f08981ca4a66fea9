import Webshell.Lib.Text
import Webshell.Pty.Containment

/-!
# Typed input

The browser cuts a text into frames, the frames of all slots go over one socket in order, and the
connection loop puts the input of a frame into the queue of the shell that the slot's channel leads
to, or leaves. A run begins when the channel of the slot in question is open and writable; from
then on the browser sends input for that slot and any frames for the others.

## Main definitions

- `sendInput`: the frames of a text
- `Typing`, `typingSystem`: the browser, the frames under way and the mux connection

## Main results

- `flatMap_payload_sendInput`, `size_le_of_mem_sendInput`: the frames of a text carry its bytes,
  and each of them is small enough for the server
- `typed_whole_or_closed`: what the connection has queued is what was typed up to some point, and
  all of it unless the connection has ended or frames are under way
-/

namespace Webshell.MuxBridge

open Transition

/-! ## The frames of a text -/

/-- `Config::ws_message_limit` -/
def wsMessageLimit : ℕ := 64 * 1024

/-- `MAX` in `sendInput`. -/
def maxPart : ℕ := 32 * 1024

/-- `TextEncoder.encode` -/
def encode (text : Text) : List UInt8 := text.flatMap String.utf8EncodeChar

/-- `Uint8Array.subarray` -/
def subarray (b : List UInt8) (start stop : ℕ) : List UInt8 := (b.drop start).take (stop - start)

/-- The loop of `sendInput` from the offset `off` on. -/
def inputFrames (index : ℕ) (b : List UInt8) (off : ℕ) : List Frame :=
  if off < b.length ∨ off = 0 then
    .binary (.ofNat index :: subarray b off (min (off + maxPart) b.length)) ::
      -- an empty text is sent as one frame
      if b.length = 0 then [] else inputFrames index b (off + maxPart)
  else []
termination_by b.length + 1 - off
decreasing_by
  rw [maxPart]
  omega

def sendInput (index : ℕ) (text : Text) : List Frame := inputFrames index (encode text) 0

/-- The size of a binary message. -/
def Frame.size : Frame → ℕ
  | .binary bytes => bytes.length
  | _ => 0

/-- The input that a frame carries for a slot. -/
def Frame.payload (slot : ℕ) : Frame → List UInt8
  | .binary (b :: bytes) => if b.toNat = slot then bytes else []
  | _ => []

theorem Frame.payload_of_ne {slot : ℕ} {f : Frame} (h : f.term ≠ some slot) :
    f.payload slot = [] := by
  cases f with
  | binary bytes =>
    cases bytes with
    | nil => rfl
    | cons b bytes => exact if_neg fun hb => h (congrArg some hb)
  | _ => rfl

section
variable {index slot off : ℕ} {b : List UInt8} {f : Frame}

/-- Every frame is tagged with the slot and carries a part of bounded length. -/
theorem eq_of_mem_inputFrames (h : f ∈ inputFrames index b off) :
    ∃ part : List UInt8, f = .binary (.ofNat index :: part) ∧ part.length ≤ maxPart := by
  induction off using inputFrames.induct b with
  | case1 off hoff ih =>
    rw [inputFrames, if_pos hoff] at h
    obtain rfl | hmem := List.mem_cons.mp h
    · refine ⟨_, rfl, ?_⟩
      rw [subarray, List.length_take]
      omega
    · by_cases hb : b.length = 0
      · rw [if_pos hb] at hmem
        cases hmem
      · rw [if_neg hb] at hmem
        exact ih hb hmem
  | case2 off hoff =>
    rw [inputFrames, if_neg hoff] at h
    cases h

/-- The loop sends what is left of the text from its offset on. -/
theorem flatMap_payload_inputFrames (hindex : (UInt8.ofNat index).toNat = index) :
    (inputFrames index b off).flatMap (Frame.payload index) = b.drop off := by
  induction off using inputFrames.induct b with
  | case1 off hoff ih =>
    have hpart : ∀ part, Frame.payload index (.binary (.ofNat index :: part)) = part :=
      fun part => if_pos hindex
    rw [inputFrames, if_pos hoff, List.flatMap_cons, hpart, subarray]
    by_cases hb : b.length = 0
    · rw [if_pos hb, List.length_eq_zero_iff.mp hb]
      simp
    · rw [if_neg hb, ih hb]
      -- the part that is sent now and the parts that follow
      by_cases hlast : off + maxPart ≤ b.length
      · rw [min_eq_left hlast, Nat.add_sub_cancel_left, ← List.drop_drop, List.take_append_drop]
      · rw [min_eq_right (by omega), List.drop_eq_nil_of_le (by omega : b.length ≤ off + maxPart),
          List.append_nil, List.take_of_length_le (by rw [List.length_drop])]
  | case2 off hoff =>
    rw [inputFrames, if_neg hoff, List.drop_eq_nil_of_le (by omega), List.flatMap_nil]

end

theorem toNat_ofNat_of_lt {index : ℕ} (h : index < 64) : (UInt8.ofNat index).toNat = index := by
  rw [UInt8.toNat_ofNat']
  exact Nat.mod_eq_of_lt (by omega)

theorem term_of_mem_sendInput {index : ℕ} (hindex : index < 64) {text : Text} {f : Frame}
    (h : f ∈ sendInput index text) : f.term = some index := by
  obtain ⟨part, rfl, _⟩ := eq_of_mem_inputFrames h
  exact congrArg some (toNat_ofNat_of_lt hindex)

/-- The frames of a text carry its bytes, and nothing for another slot. -/
theorem flatMap_payload_sendInput {index : ℕ} (hindex : index < 64) (slot : ℕ) (text : Text) :
    (sendInput index text).flatMap (Frame.payload slot) =
      if index = slot then encode text else [] := by
  by_cases hslot : index = slot
  · subst hslot
    rw [if_pos rfl]
    exact flatMap_payload_inputFrames (toNat_ofNat_of_lt hindex)
  · rw [if_neg hslot, List.flatMap_eq_nil_iff]
    intro f hf
    apply Frame.payload_of_ne
    rw [term_of_mem_sendInput hindex hf]
    exact fun heq => hslot (Option.some.inj heq)

/-- The server takes every frame of a text. -/
theorem size_le_of_mem_sendInput {index : ℕ} {text : Text} {f : Frame}
    (h : f ∈ sendInput index text) : f.size ≤ wsMessageLimit := by
  obtain ⟨part, rfl, hpart⟩ := eq_of_mem_inputFrames h
  show (UInt8.ofNat index :: part).length ≤ wsMessageLimit
  rw [List.length_cons]
  rw [maxPart] at hpart
  rw [wsMessageLimit]
  omega

theorem sendInput_nil (index : ℕ) : sendInput index [] = [.binary [.ofNat index]] := by
  rw [sendInput, encode, List.flatMap_nil, inputFrames]
  simp [subarray]

/-! ## The browser and the connection -/

/-- The input among commands. -/
def PtyCmd.bytes : PtyCmd → List UInt8
  | .input bytes => bytes
  | _ => []

def Mux.queueOf (s : Mux) (epoch : ℕ) : List PtyCmd :=
  (s.terminals epoch).elim [] fun term => term.queue.items

/-- The input that a step has put into the queue of a terminal. -/
def added (s s' : Mux) (epoch : ℕ) : List UInt8 :=
  ((s'.queueOf epoch).drop (s.queueOf epoch).length).flatMap PtyCmd.bytes

/-- The page with its slots, the frames that the server has not read, and the connection. `epoch`
is the terminal that the slot in question leads to, `sent` the bytes of the texts for this slot,
and `queued` what the connection has put into that terminal's queue. -/
structure Typing where
  slots : ℕ
  isOpen : Bool
  wire : List Frame
  mux : Mux
  epoch : ℕ
  sent : List UInt8
  queued : List UInt8

inductive TypingAct
  | type (index : ℕ) (text : Text)
  /-- A frame for another slot, or one that is for none. -/
  | send (f : Frame)
  | closeSocket
  | receive
  /-- Anything but a frame: the rest of an open, the shells' own threads, other connections. -/
  | mux (a : Act)

def Typing.step (slot : ℕ) (s : Typing) : TypingAct → Option Typing
  | .type index text =>
    if index < s.slots then
      some (if s.isOpen then
        { s with
          wire := s.wire ++ sendInput index text
          sent := s.sent ++ if index = slot then encode text else [] }
      else s)
    else none
  | .send f =>
    if f.term = some slot then none
    else some (if s.isOpen then { s with wire := s.wire ++ [f] } else s)
  | .closeSocket => some { s with isOpen := false }
  | .receive =>
    match s.wire with
    | [] => none
    | f :: wire => do
      -- a message over the limit ends the stream
      let mux ← muxStep s.mux (if f.size ≤ wsMessageLimit then .frame f else .hangUp)
      some { s with mux := mux, wire := wire, queued := s.queued ++ added s.mux mux s.epoch }
  | .mux (.frame _) => none
  | .mux a => do
    let mux ← muxStep s.mux a
    some { s with mux := mux }

/-- The input for the slot that the server has not read. -/
def Typing.pending (s : Typing) (slot : ℕ) : List UInt8 := s.wire.flatMap (Frame.payload slot)

/-- The connection reads its next frame, the channel of the slot is open and writable, and what is
under way for the slot is input. -/
def typingSystem (slot : ℕ) : System Typing TypingAct where
  init s := muxSystem.Reachable s.mux ∧ s.slots ≤ 64 ∧ s.mux.looping = true ∧
    s.mux.phase = .reading ∧
    (∃ ch, s.mux.channels slot = some ch ∧ ch.epoch = s.epoch ∧ ch.readOnly = false) ∧
    (∀ f ∈ s.wire, f.term = some slot → ∃ bytes, f = .binary bytes) ∧
    s.sent = s.pending slot ∧ s.queued = []
  step := Typing.step slot

/-! ## What the connection does to the slot -/

/-- The channel of the slot leads to the terminal and is writable, and no open is replacing it. -/
structure Mux.Writes (s : Mux) (slot epoch : ℕ) : Prop where
  channel : ∃ ch, s.channels slot = some ch ∧ ch.epoch = epoch ∧ ch.readOnly = false
  phase : ∀ o, s.phase.opening = some o → o.term ≠ slot

namespace Mux

variable {s s' : Mux}

/-- An attach is between the slots and the terminals. -/
theorem attach_connection (s : Mux) (index cols rows : ℕ) (spawns : Bool) :
    (s.attach index cols rows spawns).1.looping = s.looping ∧
      (s.attach index cols rows spawns).1.channels = s.channels ∧
      (s.attach index cols rows spawns).1.phase = s.phase := by
  have htake : (s.takeSlot index).looping = s.looping ∧
      (s.takeSlot index).channels = s.channels ∧ (s.takeSlot index).phase = s.phase := by
    rw [takeSlot]
    split
    · exact ⟨rfl, rfl, rfl⟩
    · exact ⟨offer_looping .., offer_channels .., offer_phase ..⟩
  obtain heq | ⟨epoch, _, heq⟩ | ⟨_, heq⟩ | ⟨_, heq⟩ := s.attach_cases index cols rows spawns
  all_goals rw [heq]
  · exact ⟨rfl, rfl, rfl⟩
  · exact ⟨rfl, rfl, rfl⟩
  · exact htake
  · exact htake

namespace Writes

variable {slot epoch : ℕ}

theorem congr (h : s.Writes slot epoch) (hchannel : s'.channels slot = s.channels slot)
    (hphase : ∀ o, s'.phase.opening = some o → s.phase.opening = some o ∨ o.term ≠ slot) :
    s'.Writes slot epoch := by
  constructor
  · rw [hchannel]
    exact h.channel
  · intro o ho
    exact (hphase o ho).elim (h.phase o) id

/-- A frame for another slot leaves the channel and the queue behind it alone, or it ends the
connection. -/
theorem handle (h : s.Writes slot epoch) (hinv : MuxInv s) {f : Frame} (hf : f.term ≠ some slot) :
    (s.handle f).terminals epoch = s.terminals epoch ∧
      ((s.handle f).looping = true → (s.handle f).Writes slot epoch) := by
  obtain ⟨ch, hch, rfl, hro⟩ := h.channel
  have hother : ∀ term ch', s.channels term = some ch' → term ≠ slot → ch'.epoch ≠ ch.epoch := by
    intro term ch' hch' hne heq
    obtain ⟨t, ht, hslot⟩ := hinv.channels slot ch hch
    obtain ⟨t', ht', hslot'⟩ := hinv.channels term ch' hch'
    rw [heq, ht] at ht'
    obtain rfl := Option.some.inj ht'
    exact hne (hslot'.symm.trans hslot)
  have hkeep : ∀ epoch' term', epoch' ≠ ch.epoch →
      (s.setTerminal epoch' term').terminals ch.epoch = s.terminals ch.epoch :=
    fun epoch' term' hne => Function.update_of_ne (Ne.symm hne) ..
  have hsame : s.terminals ch.epoch = s.terminals ch.epoch ∧
      (s.looping = true → s.Writes slot ch.epoch) := ⟨rfl, fun _ => h⟩
  cases f with
  | binary bytes =>
    cases bytes with
    | nil => exact hsame
    | cons b bytes =>
      have hb : b.toNat ≠ slot := fun heq => hf (congrArg some heq)
      simp only [Mux.handle]
      split
      · exact hsame
      next ch' hch' =>
        split
        · exact hsame
        · rw [sendInput]
          split
          · exact hsame
          next term hterm =>
            split
            · exact ⟨hkeep _ _ (hother _ ch' hch' hb),
                fun _ => h.congr rfl fun o ho => .inl ho⟩
            · exact ⟨rfl, fun hup => by cases hup⟩
  | openSlot o =>
    have hne : o.term ≠ slot := fun heq => hf (congrArg some heq)
    refine ⟨rfl, fun _ => h.congr (Function.update_of_ne (Ne.symm hne) ..) fun o' ho => ?_⟩
    obtain rfl := Option.some.inj ho
    exact .inr hne
  | resize term cols rows =>
    have hne : term ≠ slot := fun heq => hf (congrArg some heq)
    simp only [Mux.handle]
    split
    · exact hsame
    next ch' hch' =>
      split
      · exact hsame
      · rw [offer]
        split
        · exact hsame
        · exact ⟨hkeep _ _ (hother term ch' hch' hne), fun _ => h.congr rfl fun o ho => .inl ho⟩
  | mode term ro =>
    have hne : slot ≠ term := fun heq => hf (congrArg some heq.symm)
    simp only [Mux.handle]
    split
    · exact hsame
    · exact ⟨rfl, fun _ => h.congr (Function.update_of_ne hne ..) fun o ho => .inl ho⟩
  | close term =>
    have hne : slot ≠ term := fun heq => hf (congrArg some heq.symm)
    exact ⟨rfl, fun _ => h.congr (Function.update_of_ne hne ..) fun o ho => .inl ho⟩
  | malformed => exact hsame

/-- The shells' own threads and other connections do not touch the channels. -/
theorem threads (h : s.looping = true → s.Writes slot epoch) {e : ℕ} {a : Act}
    (hstep : s.stepTerminal e a = some s') (hup : s'.looping = true) :
    s.looping = true ∧ s'.Writes slot epoch := by
  obtain ⟨term, _, hrest⟩ := Option.bind_eq_some_iff.mp hstep
  obtain ⟨term', _, hs'⟩ := Option.bind_eq_some_iff.mp hrest
  obtain rfl := Option.some.inj hs'
  exact ⟨hup, (h hup).congr rfl fun o ho => .inl ho⟩

/-- Any step but a frame leaves the channel writable, or the connection has ended. -/
theorem step (h : s.looping = true → s.Writes slot epoch) {a : Act} (hframe : ∀ f, a ≠ .frame f)
    (hstep : muxStep s a = some s') (hup : s'.looping = true) :
    s.looping = true ∧ s'.Writes slot epoch := by
  cases a with
  | frame f => exact absurd rfl (hframe f)
  | attach spawns =>
    obtain ⟨o, wasReadOnly, phase, hphase, rfl, hor⟩ := muxStep_attach hstep
    have hattach := s.attach_connection o.term (validSize o.cols o.rows).1
      (validSize o.cols o.rows).2 spawns
    have hloop : s.looping = true := hattach.1.symm.trans hup
    refine ⟨hloop, (h hloop).congr (congrFun hattach.2.1 slot) fun o' ho => .inl ?_⟩
    rw [hphase]
    obtain rfl | ⟨_, _, _, rfl⟩ := hor
    · exact ho
    · exact ho
  | resizePty =>
    obtain ⟨o, wasReadOnly, e, spawned, hphase, rfl⟩ := muxStep_resizePty hstep
    have hloop : s.looping = true := (offer_looping s e _).symm.trans hup
    refine ⟨hloop, (h hloop).congr (congrFun (offer_channels s e _) slot) fun o' ho => .inl ?_⟩
    rw [hphase]
    exact ho
  | queueHello =>
    obtain ⟨o, e, hphase, rfl⟩ := muxStep_queueHello hstep
    split at hup
    next hwriter =>
      rw [if_pos hwriter]
      refine ⟨hup, (h hup).congr rfl fun o' ho => .inl ?_⟩
      rw [hphase]
      exact ho
    · cases hup
  | queueReplay =>
    obtain ⟨o, e, hphase, rfl⟩ := muxStep_queueReplay hstep
    split at hup
    next hwriter =>
      rw [if_pos hwriter]
      have hne : o.term ≠ slot := (h hup).phase o (by rw [hphase]; rfl)
      exact ⟨hup, (h hup).congr (Function.update_of_ne (Ne.symm hne) ..)
        fun o' ho => by cases ho⟩
    · cases hup
  | queueRefusal =>
    obtain ⟨o, hphase, rfl⟩ := muxStep_queueRefusal hstep
    split at hup
    next hwriter =>
      rw [if_pos hwriter]
      exact ⟨hup, (h hup).congr rfl fun o' ho => by cases ho⟩
    · cases hup
  | hangUp =>
    simp only [muxStep, Option.ite_none_right_eq_some, Option.some.injEq] at hstep
    rw [← hstep.2] at hup
    cases hup
  | writerEnds =>
    obtain rfl := Option.some.inj hstep
    exact ⟨hup, (h hup).congr rfl fun o ho => .inl ho⟩
  | forwardEnds term =>
    obtain ⟨ch, hch, hs'⟩ := Option.bind_eq_some_iff.mp hstep
    obtain rfl := Option.some.inj hs'
    refine ⟨hup, ⟨?_, (h hup).phase⟩⟩
    obtain ⟨ch', hch', hepoch, hro⟩ := (h hup).channel
    by_cases hterm : slot = term
    · subst hterm
      rw [hch] at hch'
      obtain rfl := Option.some.inj hch'
      exact ⟨_, Function.update_self .., hepoch, hro⟩
    · exact ⟨ch', (Function.update_of_ne hterm ..).trans hch', hepoch, hro⟩
  | foreignAttach term cols rows spawns =>
    simp only [muxStep, Option.ite_none_left_eq_some, Option.some.injEq] at hstep
    obtain ⟨_, rfl⟩ := hstep
    have hattach := s.attach_connection term (validSize cols rows).1 (validSize cols rows).2 spawns
    have hloop : s.looping = true := hattach.1.symm.trans hup
    refine ⟨hloop, (h hloop).congr (congrFun hattach.2.1 slot) fun o ho => .inl ?_⟩
    rw [← hattach.2.2]
    exact ho
  | reset term =>
    simp only [muxStep, Option.ite_none_left_eq_some, Option.some.injEq] at hstep
    obtain ⟨_, rfl⟩ := hstep
    exact ⟨hup, (h hup).congr rfl fun o ho => .inl ho⟩
  | exit e => exact threads h hstep hup
  | nudge e => exact threads h hstep hup
  | take e => exact threads h hstep hup
  | wrote e ok => exact threads h hstep hup
  | reap e => exact threads h hstep hup
  | foreignSend e cmd => exact threads h hstep hup

end Writes

/-- Input for the slot goes into the queue behind its channel, or it ends the connection. -/
theorem Writes.handle_input {slot epoch : ℕ} (h : s.Writes slot epoch) (hinv : MuxInv s)
    (hup : s.looping = true) {b : UInt8} (hb : b.toNat = slot) (bytes : List UInt8) :
    (added s (s.handle (.binary (b :: bytes))) epoch = bytes ∧
      (s.handle (.binary (b :: bytes))).looping = true ∧
      (s.handle (.binary (b :: bytes))).Writes slot epoch) ∨
    (added s (s.handle (.binary (b :: bytes))) epoch = [] ∧
      (s.handle (.binary (b :: bytes))).looping = false) := by
  obtain ⟨ch, hch, rfl, hro⟩ := h.channel
  obtain ⟨term, hterm, _⟩ := hinv.channels slot ch hch
  have hhandle : s.handle (.binary (b :: bytes)) = s.sendInput ch.epoch bytes := by
    simp only [Mux.handle, hb, hch, hro, Bool.false_eq_true, if_false]
  have hqueue : s.queueOf ch.epoch = term.queue.items := by rw [queueOf, hterm, Option.elim_some]
  rw [hhandle]
  by_cases hacc : term.queue.Accepts
  · left
    rw [sendInput_of_accepts hterm hacc, offer_terminals hterm]
    have hqueue' : (s.setTerminal ch.epoch { term with
        queue := term.queue.offer (.input bytes) }).queueOf ch.epoch =
          term.queue.items ++ [.input bytes] := by
      simp only [queueOf, setTerminal, Function.update_self, Option.elim_some]
      exact SyncChannel.offer_of_accepts hacc
    refine ⟨?_, hup, h.congr rfl fun o ho => .inl ho⟩
    rw [added, hqueue', hqueue, List.drop_left, List.flatMap_singleton]
    rfl
  · right
    rw [sendInput_of_not_accepts hterm hacc]
    refine ⟨?_, rfl⟩
    show ((s.queueOf ch.epoch).drop (s.queueOf ch.epoch).length).flatMap PtyCmd.bytes = []
    rw [List.drop_length, List.flatMap_nil]

theorem added_of_terminals {epoch : ℕ} (h : s'.terminals epoch = s.terminals epoch) :
    added s s' epoch = [] := by
  have hqueue : s'.queueOf epoch = s.queueOf epoch := by rw [queueOf, queueOf, h]
  rw [added, hqueue, List.drop_length, List.flatMap_nil]

end Mux

/-! ## The run -/

/-- As long as the connection is up, what it has queued and what is under way is what was typed. -/
structure TypingInv (slot : ℕ) (s : Typing) : Prop where
  mux : MuxInv s.mux
  slots : s.slots ≤ 64
  wire : ∀ f ∈ s.wire, f.term = some slot → ∃ bytes, f = .binary bytes
  writes : s.mux.looping = true → s.mux.Writes slot s.epoch
  whole : s.mux.looping = true → s.queued ++ s.pending slot = s.sent
  queued : s.queued <+: s.sent

section
variable {slot : ℕ} {s s' : Typing}

theorem typingInv_init (h : (typingSystem slot).init s) : TypingInv slot s := by
  obtain ⟨hmux, hslots, _, hphase, hch, hwire, hsent, hqueued⟩ := h
  refine ⟨muxInv_of_reachable hmux, hslots, hwire, fun _ => ⟨hch, fun o ho => ?_⟩, fun _ => ?_, ?_⟩
  · rw [hphase] at ho
    cases ho
  · rw [hqueued, hsent, List.nil_append]
  · rw [hqueued]
    exact List.nil_prefix

theorem TypingInv.type (h : TypingInv slot s) {index : ℕ} {text : Text}
    (hstep : s.step slot (.type index text) = some s') : TypingInv slot s' := by
  simp only [Typing.step, Option.ite_none_right_eq_some, Option.some.injEq] at hstep
  obtain ⟨hindex, rfl⟩ := hstep
  split
  · refine ⟨h.mux, h.slots, fun f hf hterm => ?_, h.writes, fun hup => ?_, ?_⟩
    · obtain hold | hnew := List.mem_append.mp hf
      · exact h.wire f hold hterm
      · obtain ⟨part, rfl, _⟩ := eq_of_mem_inputFrames hnew
        exact ⟨_, rfl⟩
    · show s.queued ++ (s.wire ++ sendInput index text).flatMap (Frame.payload slot) = _
      rw [List.flatMap_append, flatMap_payload_sendInput (hindex.trans_le h.slots),
        ← List.append_assoc]
      exact congrArg (· ++ _) (h.whole hup)
    · exact h.queued.trans (List.prefix_append ..)
  · exact h

theorem TypingInv.send (h : TypingInv slot s) {f : Frame}
    (hstep : s.step slot (.send f) = some s') : TypingInv slot s' := by
  simp only [Typing.step, Option.ite_none_left_eq_some, Option.some.injEq] at hstep
  obtain ⟨hother, rfl⟩ := hstep
  split
  · refine ⟨h.mux, h.slots, fun g hg hterm => ?_, h.writes, fun hup => ?_, h.queued⟩
    · obtain hold | hnew := List.mem_append.mp hg
      · exact h.wire g hold hterm
      · rw [List.mem_singleton.mp hnew] at hterm
        exact absurd hterm hother
    · show s.queued ++ (s.wire ++ [f]).flatMap (Frame.payload slot) = s.sent
      rw [List.flatMap_append, List.flatMap_singleton, Frame.payload_of_ne hother, List.append_nil]
      exact h.whole hup
  · exact h

/-- The loop takes one frame. -/
theorem TypingInv.frame (h : TypingInv slot s) {f : Frame} {wire : List Frame}
    (hwire : s.wire = f :: wire) (hup : s.mux.looping = true) :
    TypingInv slot { s with
      mux := s.mux.handle f
      wire := wire
      queued := s.queued ++ added s.mux (s.mux.handle f) s.epoch } := by
  have hrest : ∀ g ∈ wire, g.term = some slot → ∃ bytes, g = .binary bytes :=
    fun g hg => h.wire g (by rw [hwire]; exact List.mem_cons_of_mem f hg)
  have hwhole : s.queued ++ (f.payload slot ++ wire.flatMap (Frame.payload slot)) = s.sent := by
    rw [← h.whole hup, Typing.pending, hwire, List.flatMap_cons]
  by_cases hf : f.term = some slot
  · obtain ⟨bytes, rfl⟩ := h.wire f (by rw [hwire]; exact List.mem_cons_self) hf
    cases bytes with
    | nil => cases hf
    | cons b bytes =>
      have hb : b.toNat = slot := Option.some.inj hf
      rw [Frame.payload, if_pos hb] at hwhole
      obtain ⟨hadded, _, hwrites⟩ | ⟨hadded, hdown⟩ :=
        (h.writes hup).handle_input h.mux hup hb bytes
      · have hall : s.queued ++ bytes ++ wire.flatMap (Frame.payload slot) = s.sent :=
          (List.append_assoc ..).trans hwhole
        refine ⟨h.mux.handle (.binary (b :: bytes)), h.slots, hrest, fun _ => hwrites,
          fun _ => ?_, ?_⟩
        · rw [hadded]
          exact hall
        · rw [hadded]
          exact ⟨_, hall⟩
      · refine ⟨h.mux.handle (.binary (b :: bytes)), h.slots, hrest, fun hup' => ?_,
          fun hup' => ?_, ?_⟩
        · cases hdown.symm.trans hup'
        · cases hdown.symm.trans hup'
        · rw [hadded, List.append_nil]
          exact h.queued
  · obtain ⟨hterminal, hwrites⟩ := (h.writes hup).handle h.mux hf
    rw [Frame.payload_of_ne hf, List.nil_append] at hwhole
    rw [Mux.added_of_terminals hterminal, List.append_nil]
    exact ⟨h.mux.handle f, h.slots, hrest, hwrites, fun _ => hwhole, h.queued⟩

theorem TypingInv.receive (h : TypingInv slot s) (hstep : s.step slot .receive = some s') :
    TypingInv slot s' := by
  rw [Typing.step] at hstep
  split at hstep
  · cases hstep
  next f wire hwire =>
    obtain ⟨mux, hmux, hs'⟩ := Option.bind_eq_some_iff.mp hstep
    obtain rfl := Option.some.inj hs'
    split at hmux
    · obtain ⟨hup, _, rfl⟩ := muxStep_frame hmux
      exact h.frame hwire hup
    · simp only [muxStep, Option.ite_none_right_eq_some, Option.some.injEq] at hmux
      obtain ⟨_, rfl⟩ := hmux
      have hnone : added s.mux s.mux.leave s.epoch = [] := Mux.added_of_terminals rfl
      rw [hnone, List.append_nil]
      refine ⟨h.mux.leave, h.slots, fun g hg => ?_, fun hup => ?_, fun hup => ?_, h.queued⟩
      · exact h.wire g (by rw [hwire]; exact List.mem_cons_of_mem f hg)
      · cases hup
      · cases hup

theorem TypingInv.others (h : TypingInv slot s) {a : Act}
    (hstep : s.step slot (.mux a) = some s') : TypingInv slot s' := by
  have hframe : ∀ f, a ≠ .frame f := by
    rintro f rfl
    cases hstep
  have hmux : ∃ mux, muxStep s.mux a = some mux ∧ s' = { s with mux := mux } := by
    cases a with
    | frame f => exact absurd rfl (hframe f)
    | _ =>
      simp only [Typing.step] at hstep
      obtain ⟨mux, hmux, hs'⟩ := Option.bind_eq_some_iff.mp hstep
      exact ⟨mux, hmux, (Option.some.inj hs').symm⟩
  obtain ⟨mux, hmux, rfl⟩ := hmux
  refine ⟨h.mux.step hmux, h.slots, h.wire, fun hup => ?_, fun hup => ?_, h.queued⟩
  · exact (Mux.Writes.step h.writes hframe hmux hup).2
  · exact h.whole (Mux.Writes.step h.writes hframe hmux hup).1

theorem TypingInv.step (h : TypingInv slot s) {a : TypingAct}
    (hstep : s.step slot a = some s') : TypingInv slot s' := by
  cases a with
  | type index text => exact h.type hstep
  | send f => exact h.send hstep
  | closeSocket =>
    obtain rfl := Option.some.inj hstep
    exact ⟨h.mux, h.slots, h.wire, h.writes, h.whole, h.queued⟩
  | receive => exact h.receive hstep
  | mux a => exact h.others hstep

/-- What the connection has put into the shell's queue is what was typed for the slot up to some
point; while the connection is up, all that is missing is under way. The server takes every frame
of a text, and an empty text is one frame. -/
theorem typed_whole_or_closed (h : (typingSystem slot).Reachable s) :
    s.queued <+: s.sent ∧
      (s.mux.looping = false ∨ s.queued ++ s.pending slot = s.sent) ∧
      (∀ index text, ∀ f ∈ sendInput index text, f.size ≤ wsMessageLimit) ∧
      ∀ index, (sendInput index []).length = 1 := by
  have hinv : TypingInv slot s := by
    refine System.Reach.invariant (fun _ hi => typingInv_init hi) ?_ h
    intro s a s' _ hs _ hstep
    exact hs.step hstep
  refine ⟨hinv.queued, ?_, fun index text f hf => size_le_of_mem_sendInput hf, fun index => ?_⟩
  · cases hup : s.mux.looping with
    | false => exact .inl rfl
    | true => exact .inr (hinv.whole hup)
  · rw [sendInput_nil]
    rfl

/-- The word `hi`, typed in slot 0, and the letter `a`, typed in slot 1. -/
def hiRun : List TypingAct := [.type 0 ['h', 'i'], .type 1 ['a'], .receive, .receive]

theorem typed_whole_or_closed_hiRun :
    ∃ mux s, muxSystem.run (emptyMux 4) (openRun 0) = some mux ∧
      (typingSystem 0).run ⟨4, true, [], mux, 0, [], []⟩ hiRun = some s ∧
      s.queued = [104, 105] ∧ s.queued <+: s.sent ∧
      (s.mux.looping = false ∨ s.queued ++ s.pending 0 = s.sent) := by
  have hopen : (muxSystem.run (emptyMux 4) (openRun 0)).isSome := by decide
  obtain ⟨mux, hmux⟩ := Option.isSome_iff_exists.mp hopen
  have hstate : (muxSystem.run (emptyMux 4) (openRun 0)).map
      (fun m => (m.looping, m.phase, m.channels 0)) =
        some (true, .reading, some ⟨0, false, false⟩) := by decide
  have hrun : ((muxSystem.run (emptyMux 4) (openRun 0)).bind fun m =>
      (typingSystem 0).run ⟨4, true, [], m, 0, [], []⟩ hiRun).map Typing.queued =
        some [104, 105] := by decide +kernel
  rw [hmux] at hstate hrun
  obtain ⟨s, hs, hqueued⟩ := Option.map_eq_some_iff.mp hrun
  rw [Option.map_some, Option.some.injEq, Prod.mk.injEq, Prod.mk.injEq] at hstate
  obtain ⟨hlooping, hphase, hch⟩ := hstate
  have hreach : muxSystem.Reachable mux := System.Reachable.run (.init ⟨4, rfl⟩) hmux
  have hinit : (typingSystem 0).init ⟨4, true, [], mux, 0, [], []⟩ :=
    ⟨hreach, (by decide : 4 ≤ 64), hlooping, hphase, ⟨_, hch, rfl, rfl⟩, List.forall_mem_nil _, rfl,
      rfl⟩
  have htyped := typed_whole_or_closed (System.Reachable.run (.init hinit) hs)
  exact ⟨mux, s, hmux, hs, hqueued, htyped.1, htyped.2.1⟩

end

end Webshell.MuxBridge
