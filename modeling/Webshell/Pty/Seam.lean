import Webshell.Pty.Stream

/-!
# The seam between attachments

Whatever is still on its way to a client, taken together with what the client holds, continues
the stream up to where the forward task will receive next. This is kept by the seam of an attach,
by the drain of a redraw, and by every way a forward task can end.

## Main definitions

- `Held.Segment`: the bytes held are the stream between base and offset
- `ConnInv`: what holds of a connection and the client at its end

## Main results

- `ConnInv.attached`: the seam between what a client holds and its new attachment
- `ConnInv.select`: an arm of the forward task
- `ConnInv.sendOpen`, `ConnInv.deliver`: the client's steps
-/

namespace Webshell

variable {P : Type}

/-- The bytes held are those of the stream from the base to the offset. -/
structure Held.Segment (h : Held) (stream : List UInt8) : Prop where
  base_le : h.base ≤ h.offset
  offset_le : h.offset ≤ stream.length
  bytes : h.bytes = (stream.take h.offset).drop h.base

theorem Held.Segment.mono {h : Held} {stream stream' : List UInt8} (hs : h.Segment stream)
    (hpre : stream <+: stream') : h.Segment stream' := by
  obtain ⟨rest, rfl⟩ := hpre
  refine ⟨hs.base_le, hs.offset_le.trans (by simp), ?_⟩
  rw [List.take_append_of_le_length hs.offset_le, hs.bytes]

/-- A segment grows by the bytes that follow it in the stream. -/
theorem Held.Segment.append {h : Held} {stream : List UInt8} (hs : h.Segment stream)
    (bytes : List UInt8) (hle : h.offset + bytes.length ≤ stream.length)
    (hnext : stream.take (h.offset + bytes.length) = stream.take h.offset ++ bytes) :
    ({ h with offset := h.offset + bytes.length, bytes := h.bytes ++ bytes } : Held).Segment
      stream := by
  refine ⟨hs.base_le.trans (Nat.le_add_right _ _), hle, ?_⟩
  have hlen : h.base ≤ (stream.take h.offset).length := by
    rw [List.length_take, Nat.min_eq_left hs.offset_le]
    exact hs.base_le
  change h.bytes ++ bytes = (stream.take (h.offset + bytes.length)).drop h.base
  rw [hnext, List.drop_append_of_le_length hlen, hs.bytes]

/-- The client holds a segment of the stream of the shell whose epoch it remembers. -/
def Good (foreign : List ℕ) (w : World P) (v : View) : Prop :=
  ∀ h ∈ v.held, (w.shells h.epoch = none → h.epoch ∈ foreign) ∧
    ∀ sh, w.shells h.epoch = some sh → h.Segment sh.stream

/-- The client stands where the receiver of the target, an epoch and a receiver position, does,
unless it is dropping data. -/
def At (w : World P) (v : View) (target : ℕ × ℕ) : Prop :=
  ∃ sh, w.shells target.1 = some sh ∧ target.2 ≤ sh.output.sent.length ∧
    (v.awaiting = false → ∃ h, v.held = some h ∧ h.epoch = target.1 ∧
      h.offset = sh.position target.2)

namespace Phase

/-- The frames the connection loop has yet to queue. -/
def frames : Phase → List Frame
  | .queueing frames _ => frames
  | _ => []

end Phase

namespace Conn

/-- Everything on its way to the client, in order. -/
def frames (conn : Conn) : List Frame :=
  conn.wire ++ conn.phase.frames ++ conn.forward.elim [] Forward.hand

/-- The attachment whose output will follow these frames. -/
def target (conn : Conn) : Option (ℕ × ℕ) :=
  match conn.phase with
  | .queueing _ forward => forward
  | _ => conn.forward.bind fun fwd => if fwd.last then none else some (fwd.epoch, fwd.rx)

/-- What the opens carry that are sent and have no answer yet. -/
def pending (conn : Conn) : List (Option (ℕ × ℕ)) :=
  match conn.phase with
  | .stopping resume => resume :: conn.opens
  | _ => conn.opens

end Conn

/-- A connection and its client. -/
structure ConnInv (foreign : List ℕ) (w : World P) (p : Peer) (conn : Conn) : Prop where
  /-- No open is answered by more than one hello. -/
  counted : p.greeted + (helloModes conn.frames).length + conn.pending.length ≤ p.opened
  good : Along (Good foreign w) View.receive p.view conn.frames
  target : ∀ t ∈ conn.target, At w (conn.frames.foldl View.receive p.view) t
  /-- Only the next hello can be a resume, and the client awaits it. -/
  resumed : (helloModes conn.frames).head? = some .resume → p.view.awaiting = true
  replays : ∀ m ∈ (helloModes conn.frames).tail, m = .replay
  /-- A carried position is still the client's when its open is answered. -/
  carried : ∀ e o, some (e, o) ∈ conn.pending →
    helloModes conn.frames = [] ∧ p.view.awaiting = true ∧ p.view.position = some (e, o)
  plain : ∀ r ∈ conn.pending.tail, r = none
  exclusive : ∀ frames forward, conn.phase = .queueing frames forward → conn.forward = none

structure PeerInv (foreign : List ℕ) (w : World P) (p : Peer) : Prop where
  good : Good foreign w p.view
  conn : ∀ conn ∈ p.conn, ConnInv foreign w p conn

theorem ConnInv.withConn {foreign : List ℕ} {w : World P} {p : Peer} {conn : Conn}
    (h : ConnInv foreign w p conn) (c : Option Conn) :
    ConnInv foreign w { p with conn := c } conn :=
  ⟨h.counted, h.good, h.target, h.resumed, h.replays, h.carried, h.plain, h.exclusive⟩

/-! ## Growing streams -/

/-- What may happen to the shells: they put out more, and new ones have new epochs. -/
structure World.Extends (foreign : List ℕ) (w w' : World P) : Prop where
  kept : ∀ e sh, w.shells e = some sh →
    ∃ sh', w'.shells e = some sh' ∧ sh.output.sent <+: sh'.output.sent
  fresh : ∀ e, w.shells e = none → w'.shells e ≠ none → e ∉ foreign

variable {foreign : List ℕ} {w w' : World P} {v : View} {p : Peer} {conn conn' : Conn}

theorem Good.mono (hw : w.Extends foreign w') (h : Good foreign w v) : Good foreign w' v := by
  intro held hheld
  cases hsh : w.shells held.epoch with
  | none =>
    have hforeign := (h held hheld).1 hsh
    have hnone : w'.shells held.epoch = none := by
      by_contra hne
      exact hw.fresh _ hsh hne hforeign
    exact ⟨fun _ => hforeign, fun sh hsome => by rw [hnone] at hsome; cases hsome⟩
  | some sh =>
    obtain ⟨sh', hsh', rest, hrest⟩ := hw.kept _ _ hsh
    refine ⟨fun hnone => absurd (hnone.symm.trans hsh') (by simp), fun sh'' hsome => ?_⟩
    obtain rfl : sh' = sh'' := Option.some.inj (hsh'.symm.trans hsome)
    refine ((h held hheld).2 sh hsh).mono ⟨rest.flatten, ?_⟩
    rw [Shell.stream, Shell.stream, ← hrest, List.flatten_append]

theorem At.mono (hw : w.Extends foreign w') {t : ℕ × ℕ} (h : At w v t) : At w' v t := by
  obtain ⟨sh, hsh, hle, hat⟩ := h
  obtain ⟨sh', hsh', rest, hrest⟩ := hw.kept _ _ hsh
  refine ⟨sh', hsh', hle.trans (by simp [← hrest]), fun hv => ?_⟩
  obtain ⟨held, hheld, hepoch, hoff⟩ := hat hv
  refine ⟨held, hheld, hepoch, hoff.trans ?_⟩
  rw [Shell.position, Shell.position, ← hrest, List.take_append_of_le_length hle]

theorem ConnInv.mono (hw : w.Extends foreign w') (h : ConnInv foreign w p conn) :
    ConnInv foreign w' p conn :=
  { h with
    good := h.good.mono fun _ => Good.mono hw
    target := fun t ht => (h.target t ht).mono hw }

theorem PeerInv.mono (hw : w.Extends foreign w') (h : PeerInv foreign w p) :
    PeerInv foreign w' p :=
  ⟨h.good.mono hw, fun conn hconn => (h.conn conn hconn).mono hw⟩

/-! ## Frames queued, dropped and added -/

/-- The frames are a part of those before, from the front; as long as they are all of them, the
output that follows is the same. -/
theorem ConnInv.shrink (h : ConnInv foreign w p conn) (hframes : conn'.frames <+: conn.frames)
    (hpending : conn'.pending = conn.pending)
    (htarget : ∀ t ∈ conn'.target, conn'.frames = conn.frames ∧ t ∈ conn.target)
    (hexcl : ∀ frames forward, conn'.phase = .queueing frames forward → conn'.forward = none) :
    ConnInv foreign w p conn' := by
  obtain ⟨rest, hrest⟩ := hframes
  have hhello : helloModes conn.frames = helloModes conn'.frames ++ helloModes rest := by
    rw [← hrest, helloModes_append]
  refine ⟨?_, ?_, ?_, ?_, ?_, ?_, ?_, hexcl⟩
  · have := h.counted
    rw [hhello, List.length_append] at this
    rw [hpending]
    omega
  · have := h.good
    rw [← hrest] at this
    exact (along_append.mp this).1
  · intro t ht
    obtain ⟨heq, htarget⟩ := htarget t ht
    rw [heq]
    exact h.target t htarget
  · intro hhead
    refine h.resumed ?_
    rw [hhello, List.head?_append, hhead]
    rfl
  · intro m hm
    refine h.replays m ?_
    rw [hhello]
    cases hmodes : helloModes conn'.frames with
    | nil => rw [hmodes] at hm; cases hm
    | cons a as => rw [hmodes] at hm; exact List.mem_append_left _ hm
  · intro e o hcarry
    rw [hpending] at hcarry
    obtain ⟨hnil, hrest⟩ := h.carried e o hcarry
    rw [hhello, List.append_eq_nil_iff] at hnil
    exact ⟨hnil.1, hrest⟩
  · rw [hpending]
    exact h.plain

/-- New frames are added, none of them a hello; an open may be answered by them. -/
theorem ConnInv.extend (h : ConnInv foreign w p conn) (new : List Frame)
    (hframes : conn'.frames = conn.frames ++ new) (hnew : helloModes new = [])
    (hpending : conn'.pending <:+ conn.pending)
    (hgood : Along (Good foreign w) View.receive (conn.frames.foldl View.receive p.view) new)
    (htarget : ∀ t ∈ conn'.target,
      At w (new.foldl View.receive (conn.frames.foldl View.receive p.view)) t)
    (hexcl : ∀ frames forward, conn'.phase = .queueing frames forward → conn'.forward = none) :
    ConnInv foreign w p conn' := by
  have hhello : helloModes conn'.frames = helloModes conn.frames := by
    rw [hframes, helloModes_append, hnew, List.append_nil]
  obtain ⟨answered, hanswered⟩ := hpending
  refine ⟨?_, ?_, ?_, ?_, ?_, ?_, ?_, hexcl⟩
  · have := h.counted
    rw [← hanswered, List.length_append] at this
    rw [hhello]
    omega
  · rw [hframes]
    exact along_append.mpr ⟨h.good, hgood⟩
  · rw [hframes, List.foldl_append]
    exact htarget
  · rw [hhello]
    exact h.resumed
  · rw [hhello]
    exact h.replays
  · intro e o hcarry
    rw [hhello]
    exact h.carried e o (by rw [← hanswered]; exact List.mem_append_right _ hcarry)
  · intro r hr
    refine h.plain r ?_
    rw [← hanswered]
    cases answered with
    | nil => exact hr
    | cons _ answered => exact List.mem_append_right answered (List.mem_of_mem_tail hr)

/-! ## Data -/

/-- A chunk at the receiver's position moves both the client and the receiver past it. -/
theorem At.data {sh : Shell P} {e rx : ℕ} (hsh : w.shells e = some sh)
    (hrx : rx < sh.output.sent.length) (hgood : Good foreign w v) (hat : At w v (e, rx)) :
    Good foreign w (v.receive (.data sh.output.sent[rx])) ∧
      At w (v.receive (.data sh.output.sent[rx])) (e, rx + 1) := by
  obtain ⟨sh', hsh', _, hpos⟩ := hat
  obtain rfl : sh = sh' := Option.some.inj (hsh.symm.trans hsh')
  cases hv : v.awaiting with
  | true =>
    rw [receive_of_awaiting hv rfl]
    exact ⟨hgood, sh, hsh, hrx, fun hno => by rw [hv] at hno; cases hno⟩
  | false =>
    obtain ⟨h, hheld, rfl, hoff⟩ := hpos hv
    have hnext : sh.stream.take (h.offset + sh.output.sent[rx].length) =
          sh.stream.take h.offset ++ sh.output.sent[rx] ∧
        h.offset + sh.output.sent[rx].length = sh.position (rx + 1) := by
      have hsucc : (sh.output.sent.take (rx + 1)).flatten =
          (sh.output.sent.take rx).flatten ++ sh.output.sent[rx] := by
        rw [List.take_add_one, List.getElem?_eq_getElem hrx, List.flatten_append]
        simp
      have hlen : h.offset + sh.output.sent[rx].length = sh.position (rx + 1) := by
        rw [hoff, Shell.position, Shell.position, hsucc, List.length_append]
      exact ⟨by rw [hlen, hoff, Shell.take_position, Shell.take_position, hsucc], hlen⟩
    have hle : h.offset + sh.output.sent[rx].length ≤ sh.stream.length := by
      rw [hnext.2]
      exact sh.position_le (rx + 1)
    have hrecv : v.receive (.data sh.output.sent[rx]) =
        ⟨some { h with
            offset := h.offset + sh.output.sent[rx].length
            bytes := h.bytes ++ sh.output.sent[rx] }, false⟩ := by
      simp [View.receive, hv, hheld]
    rw [hrecv]
    refine ⟨?_, sh, hsh, hrx, fun _ => ⟨_, rfl, rfl, hnext.2⟩⟩
    intro held heq
    obtain rfl := Option.some.inj heq
    refine ⟨fun hnone => absurd (hnone.symm.trans hsh) (by simp), fun sh'' hsome => ?_⟩
    obtain rfl : sh = sh'' := Option.some.inj (hsh.symm.trans hsome)
    exact ((hgood h hheld).2 sh hsh).append _ hle hnext.1

/-- A drain moves both to the end of what was broadcast. -/
theorem At.drain {sh : Shell P} {e rx : ℕ} (hsh : w.shells e = some sh)
    (hgood : Good foreign w v) (hat : At w v (e, rx)) :
    Along (Good foreign w) View.receive v ((sh.output.sent.drop rx).map .data) ∧
      At w (((sh.output.sent.drop rx).map .data).foldl View.receive v)
        (e, sh.output.sent.length) := by
  have hrx : rx ≤ sh.output.sent.length := by
    obtain ⟨sh', hsh', hle, _⟩ := hat
    obtain rfl : sh = sh' := Option.some.inj (hsh.symm.trans hsh')
    exact hle
  induction hk : sh.output.sent.length - rx generalizing rx v with
  | zero =>
    obtain rfl : rx = sh.output.sent.length := by omega
    rw [List.drop_length]
    exact ⟨hgood, hat⟩
  | succ k ih =>
    have hlt : rx < sh.output.sent.length := by omega
    obtain ⟨hgood', hat'⟩ := hat.data hsh hlt hgood
    obtain ⟨halong, hend⟩ := ih hgood' hat' hlt (by omega)
    rw [List.drop_eq_getElem_cons hlt]
    exact ⟨⟨hgood, halong⟩, hend⟩

/-! ## The seam -/

/-- What a hello leaves the client with, and what the replay behind it makes of that. -/
theorem At.seam (foreign : List ℕ) {sh : Shell P} {e : ℕ} (hsh : w.shells e = some sh) {h : Held}
    (hepoch : h.epoch = e) (hseg : h.Segment sh.stream) :
    Along (Good foreign w) View.receive ⟨some h, false⟩ [.data (sh.stream.drop h.offset)] ∧
      At w ([Frame.data (sh.stream.drop h.offset)].foldl View.receive ⟨some h, false⟩)
        (e, sh.output.sent.length) := by
  subst hepoch
  have hlen : h.offset + (sh.stream.drop h.offset).length = sh.stream.length := by
    rw [List.length_drop]
    have := hseg.offset_le
    omega
  have hafter := hseg.append (sh.stream.drop h.offset) hlen.le (by
    rw [hlen, List.take_length, List.take_append_drop])
  have hgood : ∀ h' : Held, h'.epoch = h.epoch → h'.Segment sh.stream →
      Good foreign w ⟨some h', false⟩ := by
    intro h' heq hseg' held hheld
    obtain rfl := Option.some.inj hheld
    rw [heq]
    refine ⟨fun hnone => absurd (hnone.symm.trans hsh) (by simp), fun sh' hsome => ?_⟩
    obtain rfl : sh = sh' := Option.some.inj (hsh.symm.trans hsome)
    exact hseg'
  refine ⟨⟨hgood h rfl hseg, hgood _ rfl hafter⟩, sh, hsh, le_rfl, fun _ => ?_⟩
  exact ⟨_, rfl, rfl, hlen.trans sh.position_length.symm⟩

/-- An attach answers the open whose end was awaited. -/
theorem ConnInv.attached (h : ConnInv foreign w p conn) {resume : Option (ℕ × ℕ)}
    (hphase : conn.phase = .stopping resume) (hforward : conn.forward = none) {e : ℕ}
    {sh : Shell P} (hsh : w.shells e = some sh) (hcons : sh.Consistent) :
    ConnInv foreign w p (conn.attached (attachment e sh resume)) := by
  obtain ⟨hepoch, hrx, hbase, hreplay, hresume⟩ := attachment_cases hcons e resume
  generalize attachment e sh resume = att at *
  have hframes : conn.frames = conn.wire := by
    simp [Conn.frames, hphase, hforward, Phase.frames]
  have hpending : conn.pending = resume :: conn.opens := by
    simp [Conn.pending, hphase]
  have hframes' : (conn.attached att).frames = conn.frames ++ [att.hello, .data att.replay] := by
    simp [Conn.frames, Conn.attached, hphase, hforward, Phase.frames]
  have hhello : helloModes (conn.attached att).frames = helloModes conn.frames ++ [att.mode] := by
    rw [hframes', helloModes_append]
    rfl
  -- a resume answers the position its open carried, where the client still is
  have hcarried : att.mode = .resume → helloModes conn.frames = [] ∧ p.view.awaiting = true ∧
      p.view.position = some (e, att.baseOffset) := fun hmode =>
    h.carried e att.baseOffset (by rw [hpending, hresume hmode]; exact List.mem_cons_self)
  have hseam : ∃ held : Held, held.epoch = e ∧ held.offset = att.baseOffset ∧
      held.Segment sh.stream ∧
      (conn.frames.foldl View.receive p.view).receive att.hello = ⟨some held, false⟩ := by
    cases hmode : att.mode with
    | replay =>
      refine ⟨⟨e, att.baseOffset, att.baseOffset, []⟩, rfl, rfl, ⟨le_rfl, hbase, ?_⟩, ?_⟩
      · rw [List.drop_take_self]
      · rw [Attachment.hello, hmode, hepoch]
        rfl
    | resume =>
      obtain ⟨hnil, hawait, hpos⟩ := hcarried hmode
      rw [foldl_receive_of_awaiting hawait hnil]
      obtain ⟨held, hheld, heq⟩ := Option.map_eq_some_iff.mp hpos
      obtain ⟨rfl, hoff⟩ := Prod.mk.inj heq
      refine ⟨held, rfl, hoff, ((h.good.head held hheld).2 sh hsh), ?_⟩
      rw [Attachment.hello, hmode, hepoch, ← hoff]
      simp [View.receive, hheld]
  obtain ⟨held, heldEpoch, heldOffset, hseg, hrecv⟩ := hseam
  have hdata := At.seam foreign hsh heldEpoch hseg
  rw [heldOffset, ← hreplay] at hdata
  refine ⟨?_, ?_, ?_, ?_, ?_, ?_, ?_, fun _ _ _ => hforward⟩
  · have := h.counted
    rw [hpending, List.length_cons] at this
    rw [hhello, List.length_append]
    change _ + conn.opens.length ≤ _
    simp only [List.length_cons, List.length_nil]
    omega
  · rw [hframes']
    refine along_append.mpr ⟨h.good, h.good.last, ?_⟩
    rw [hrecv]
    exact hdata.1
  · intro t ht
    obtain rfl : (att.epoch, att.outputRx) = t := Option.some.inj ht
    rw [hframes', List.foldl_append, List.foldl_cons, hrecv, hepoch, hrx]
    exact hdata.2
  · rw [hhello]
    cases hmodes : helloModes conn.frames with
    | nil => exact fun hmode => (hcarried (Option.some.inj hmode)).2.1
    | cons m ms =>
      intro hhead
      exact h.resumed (by rw [hmodes]; exact hhead)
  · rw [hhello]
    cases hmodes : helloModes conn.frames with
    | nil => simp
    | cons m ms =>
      intro m' hm'
      obtain hm' | hm' := List.mem_append.mp hm'
      · exact h.replays m' (by rw [hmodes]; exact hm')
      · obtain rfl := List.mem_singleton.mp hm'
        cases hmode : att.mode with
        | replay => rfl
        | resume =>
          rw [(hcarried hmode).1] at hmodes
          cases hmodes
  · intro e' o hcarry
    have := h.plain _ (by rw [hpending]; exact hcarry)
    cases this
  · intro r hr
    exact h.plain r (by rw [hpending]; exact List.mem_of_mem_tail hr)

/-- A failed attach is reported, and leaves the client as it is. -/
theorem ConnInv.refused (h : ConnInv foreign w p conn) {resume : Option (ℕ × ℕ)}
    (hphase : conn.phase = .stopping resume) (hforward : conn.forward = none) :
    ConnInv foreign w p { conn with phase := .queueing [.closed .error] none } := by
  have hend := h.good.last
  refine h.extend [.closed .error] ?_ rfl ?_ ⟨hend, hend⟩ (fun t ht => by cases ht)
    fun _ _ _ => hforward
  · simp [Conn.frames, hphase, hforward, Phase.frames]
  · simp [Conn.pending, hphase]

/-! ## The client's steps -/

theorem Good.sendOpen (h : Good foreign w v) : Good foreign w v.sendOpen := h

theorem ConnInv.sendOpen (h : ConnInv foreign w p conn) (hv : Good foreign w p.view) {carry : Bool}
    (hcarry : carry = true → p.opened = p.greeted) :
    ConnInv foreign w { p with view := p.view.sendOpen, opened := p.opened + 1 }
      { conn with opens := conn.opens ++ [if carry then p.view.position else none] } := by
  have hpending : ({ conn with
      opens := conn.opens ++ [if carry then p.view.position else none] } : Conn).pending =
        conn.pending ++ [if carry then p.view.position else none] := by
    cases hphase : conn.phase <;> simp [Conn.pending, hphase]
  -- an open that carries a position is the only one without an answer
  have halone : carry = true → helloModes conn.frames = [] ∧ conn.pending = [] := by
    intro hc
    have hcount := h.counted
    rw [hcarry hc] at hcount
    exact ⟨List.length_eq_zero_iff.mp (by omega), List.length_eq_zero_iff.mp (by omega)⟩
  have hfold : Along (Good foreign w) View.receive p.view.sendOpen conn.frames ∧
      ∀ t ∈ conn.target, At w (conn.frames.foldl View.receive p.view.sendOpen) t := by
    cases hmodes : helloModes conn.frames with
    | nil =>
      refine ⟨along_of_awaiting rfl hv.sendOpen hmodes, fun t ht => ?_⟩
      rw [foldl_receive_of_awaiting rfl hmodes]
      obtain ⟨sh, hsh, hle, _⟩ := h.target t ht
      exact ⟨sh, hsh, hle, fun hno => by cases hno⟩
    | cons m ms =>
      cases m with
      | replay =>
        have hhead : (helloModes conn.frames).head? = some .replay := by rw [hmodes]; rfl
        refine ⟨along_of_replay hhead h.good rfl hv.sendOpen, ?_⟩
        rw [foldl_receive_of_replay hhead p.view.sendOpen p.view]
        exact h.target
      | resume =>
        have hawait := h.resumed (by rw [hmodes]; rfl)
        have hsame : p.view.sendOpen = p.view := by
          rw [View.sendOpen, ← hawait]
        rw [hsame]
        exact ⟨h.good, h.target⟩
  refine ⟨?_, hfold.1, hfold.2, fun _ => rfl, h.replays, ?_, ?_, h.exclusive⟩
  · rw [hpending, List.length_append, List.length_singleton]
    have := h.counted
    change p.greeted + (helloModes conn.frames).length + (conn.pending.length + 1) ≤ p.opened + 1
    omega
  · intro e o hmem
    rw [hpending, List.mem_append, List.mem_singleton] at hmem
    obtain hmem | hmem := hmem
    · obtain ⟨hnil, _, hpos⟩ := h.carried e o hmem
      exact ⟨hnil, rfl, hpos⟩
    · cases hc : carry with
      | false => rw [hc] at hmem; cases hmem
      | true => rw [hc] at hmem; exact ⟨(halone hc).1, rfl, hmem.symm⟩
  · intro r hr
    rw [hpending] at hr
    cases hp : conn.pending with
    | nil => rw [hp] at hr; cases hr
    | cons first rest =>
      rw [hp] at hr
      obtain hr | hr := List.mem_append.mp hr
      · exact h.plain r (by rw [hp]; exact hr)
      · rw [List.mem_singleton] at hr
        cases hc : carry with
        | false => rw [hc] at hr; exact hr
        | true =>
          rw [(halone hc).2] at hp
          cases hp

theorem ConnInv.deliver (h : ConnInv foreign w p conn) {f : Frame}
    (hframes : conn.frames = f :: conn'.frames) (hpending : conn'.pending = conn.pending)
    (htarget : conn'.target = conn.target)
    (hexcl : ∀ frames forward, conn'.phase = .queueing frames forward → conn'.forward = none) :
    ConnInv foreign w
      { p with
        view := p.view.receive f
        greeted := p.greeted + (helloModes [f]).length } conn' := by
  have hhello : helloModes conn.frames = helloModes [f] ++ helloModes conn'.frames := by
    rw [hframes, helloModes_cons]
  have hgood := h.good
  have hend := h.target
  rw [hframes] at hgood hend
  refine ⟨?_, hgood.2, ?_, ?_, ?_, ?_, ?_, hexcl⟩
  · have := h.counted
    rw [hhello, List.length_append] at this
    rw [hpending]
    change p.greeted + (helloModes [f]).length + _ + _ ≤ p.opened
    omega
  · rw [htarget]
    exact hend
  · intro hhead
    change (p.view.receive f).awaiting = true
    cases hf : helloModes [f] with
    | nil =>
      have hawait := h.resumed (by rw [hhello, hf]; exact hhead)
      rw [receive_of_awaiting hawait hf]
      exact hawait
    | cons m ms =>
      -- a resume behind another hello
      have hresume : AttachMode.resume ∈ (helloModes conn.frames).tail := by
        rw [hhello, hf]
        exact List.mem_append_right _ (List.mem_of_head? hhead)
      cases h.replays _ hresume
  · intro m hm
    refine h.replays m ?_
    rw [hhello]
    cases helloModes [f] with
    | nil => exact hm
    | cons _ ms => exact List.mem_append_right ms (List.mem_of_mem_tail hm)
  · intro e o hcarry
    rw [hpending] at hcarry
    obtain ⟨hnil, hawait, hpos⟩ := h.carried e o hcarry
    rw [hhello, List.append_eq_nil_iff] at hnil
    change _ ∧ (p.view.receive f).awaiting = true ∧ (p.view.receive f).position = _
    rw [receive_of_awaiting hawait hnil.1]
    exact ⟨hnil.2, hawait, hpos⟩
  · rw [hpending]
    exact h.plain

/-! ## The forward task's steps -/

theorem Conn.selecting_eq_some {fwd : Forward} (h : conn.selecting = some fwd) :
    conn.forward = some fwd ∧ fwd.hand = [] ∧ fwd.last = false := by
  obtain ⟨fwd', hfwd, hsome⟩ := Option.bind_eq_some_iff.mp h
  by_cases hsel : fwd'.hand = [] ∧ fwd'.last = false
  · rw [if_pos hsel, Option.some.injEq] at hsome
    exact hsome ▸ ⟨hfwd, hsel⟩
  · rw [if_neg hsel] at hsome
    cases hsome

theorem ConnInv.not_queueing (h : ConnInv foreign w p conn) {fwd : Forward}
    (hfwd : conn.forward = some fwd) (frames : List Frame) (forward : Option (ℕ × ℕ)) :
    conn.phase ≠ .queueing frames forward := by
  intro hphase
  have := h.exclusive frames forward hphase
  rw [hfwd] at this
  cases this

/-- A forward task that is about to select stands at the end of everything on its way. -/
theorem ConnInv.target_of_selecting (h : ConnInv foreign w p conn) {fwd : Forward}
    (hsel : conn.selecting = some fwd) :
    At w (conn.frames.foldl View.receive p.view) (fwd.epoch, fwd.rx) := by
  obtain ⟨hfwd, _, hlast⟩ := Conn.selecting_eq_some hsel
  refine h.target _ ?_
  cases hphase : conn.phase with
  | queueing frames forward => exact absurd hphase (h.not_queueing hfwd frames forward)
  | reading => simp [Conn.target, hphase, hfwd, hlast]
  | stopping => simp [Conn.target, hphase, hfwd, hlast]

/-- One arm of the forward task, by the frames it takes in hand. -/
theorem ConnInv.select (h : ConnInv foreign w p conn) {fwd fwd' : Forward}
    (hsel : conn.selecting = some fwd) (hhello : helloModes fwd'.hand = [])
    (hgood : Along (Good foreign w) View.receive (conn.frames.foldl View.receive p.view) fwd'.hand)
    (hat : fwd'.last = false →
      At w (fwd'.hand.foldl View.receive (conn.frames.foldl View.receive p.view))
        (fwd'.epoch, fwd'.rx)) :
    ConnInv foreign w p { conn with forward := some fwd' } := by
  obtain ⟨hfwd, hhand, _⟩ := Conn.selecting_eq_some hsel
  have hqueue := h.not_queueing hfwd
  refine h.extend fwd'.hand ?_ hhello ?_ hgood ?_ fun frames forward hphase => ?_
  · simp [Conn.frames, hfwd, hhand]
  · exact List.suffix_rfl
  · intro t ht
    cases hlast : fwd'.last with
    | true => cases hphase : conn.phase <;> simp_all [Conn.target]
    | false =>
      have heq : t = (fwd'.epoch, fwd'.rx) := by
        cases hphase : conn.phase <;> simp_all [Conn.target]
      rw [heq]
      exact hat hlast
  · exact absurd hphase (hqueue frames forward)

theorem ConnInv.receive (h : ConnInv foreign w p conn) {fwd fwd' : Forward} {sh : Shell P}
    (hsel : conn.selecting = some fwd) (hsh : w.shells fwd.epoch = some sh)
    (hrecv : fwd.receive sh = some fwd') :
    ConnInv foreign w p { conn with forward := some fwd' } := by
  have hgood := h.good.last
  obtain ⟨_, hlag⟩ | ⟨_, ⟨hlt, hvalue⟩ | ⟨_, hempty⟩⟩ := sh.output.tryRecv_cases fwd.rx
  · rw [Forward.receive, hlag, Option.some.injEq] at hrecv
    subst hrecv
    exact h.select hsel rfl ⟨hgood, hgood⟩ fun hlast => by cases hlast
  · rw [Forward.receive, hvalue, Option.some.injEq] at hrecv
    subst hrecv
    obtain ⟨hgood', hat⟩ := (h.target_of_selecting hsel).data hsh hlt hgood
    exact h.select hsel rfl ⟨hgood, hgood'⟩ fun _ => hat
  · rw [Forward.receive, hempty] at hrecv
    cases hrecv

theorem ConnInv.redraw (h : ConnInv foreign w p conn) {fwd : Forward} {sh : Shell P} {r : Redraw}
    {rx : ℕ} (hsel : conn.selecting = some fwd) (hsh : w.shells fwd.epoch = some sh)
    (hr : (r.lagged = true ∧ r.pending = []) ∨
      (r.lagged = false ∧ r.pending = sh.output.sent.drop fwd.rx ∧ rx = sh.output.sent.length)) :
    ConnInv foreign w p { conn with forward := some (fwd.redraw r rx) } := by
  have hgood := h.good.last
  obtain ⟨hlag, hpend⟩ | ⟨hlag, hpend, rfl⟩ := hr
  · refine h.select hsel ?_ ?_ fun hlast => ?_
    · simp [Forward.redraw, hlag, hpend, helloModes]
    · rw [Forward.redraw, hlag, hpend]
      exact ⟨hgood, hgood⟩
    · rw [Forward.redraw, hlag] at hlast
      cases hlast
  · obtain ⟨halong, hat⟩ := (h.target_of_selecting hsel).drain hsh hgood
    have hhand : (fwd.redraw r sh.output.sent.length).hand =
        (sh.output.sent.drop fwd.rx).map Frame.data ++ [r.frame] := by
      rw [Forward.redraw, hlag, hpend]
      rfl
    refine h.select hsel ?_ ?_ fun _ => ?_
    · rw [hhand, helloModes_append, helloModes_data]
      rfl
    · rw [hhand]
      exact along_append.mpr ⟨halong, halong.last, halong.last⟩
    · rw [hhand, List.foldl_append]
      exact hat

theorem ConnInv.shutdown (h : ConnInv foreign w p conn) {fwd : Forward}
    (hsel : conn.selecting = some fwd) :
    ConnInv foreign w p
      { conn with forward := some { fwd with hand := [.closed .exit], last := true } } :=
  h.select hsel rfl ⟨h.good.last, h.good.last⟩ fun hlast => by cases hlast

/-- Ending the forward task drops the frames it still had in hand. -/
theorem ConnInv.endForward (h : ConnInv foreign w p conn) :
    ConnInv foreign w p { conn with forward := none } := by
  refine h.shrink ?_ ?_ ?_ fun _ _ _ => rfl
  · simp [Conn.frames]
  · rfl
  · intro t ht
    cases hphase : conn.phase with
    | queueing frames forward =>
      have hfwd := h.exclusive frames forward hphase
      exact ⟨by simp [Conn.frames, hfwd, hphase], by simpa [Conn.target, hphase] using ht⟩
    | reading => simp [Conn.target, hphase] at ht
    | stopping => simp [Conn.target, hphase] at ht

theorem ConnInv.queueHand (h : ConnInv foreign w p conn) (hq : conn.queueHand = some conn') :
    ConnInv foreign w p conn' := by
  obtain ⟨fwd, hfwd, hmatch⟩ := Option.bind_eq_some_iff.mp hq
  cases hhand : fwd.hand with
  | nil =>
    rw [hhand] at hmatch
    simp only at hmatch
    split at hmatch
    · obtain rfl := Option.some.inj hmatch
      exact h.endForward
    · cases hmatch
  | cons f hand =>
    rw [hhand] at hmatch
    obtain rfl := Option.some.inj hmatch
    have hqueue := h.not_queueing hfwd
    have hframes : conn.phase.frames = [] := by
      cases hphase : conn.phase with
      | queueing frames forward => exact absurd hphase (hqueue frames forward)
      | reading => rfl
      | stopping => rfl
    have heq : ({ conn with
        forward := some { fwd with hand := hand }, wire := conn.wire ++ [f] } : Conn).frames =
          conn.frames := by
      simp [Conn.frames, hframes, hfwd, hhand]
    refine h.shrink (heq ▸ List.prefix_rfl) rfl (fun t ht => ⟨heq, ?_⟩) fun frames forward hphase =>
      absurd hphase (hqueue frames forward)
    cases hphase : conn.phase with
    | queueing frames forward => exact absurd hphase (hqueue frames forward)
    | reading => simpa [Conn.target, hphase, hfwd] using ht
    | stopping => simpa [Conn.target, hphase, hfwd] using ht

/-! ## The connection loop's steps -/

theorem ConnInv.readOpen (h : ConnInv foreign w p conn) {resume : Option (ℕ × ℕ)}
    {opens : List (Option (ℕ × ℕ))} (hphase : conn.phase = .reading)
    (hopens : conn.opens = resume :: opens) :
    ConnInv foreign w p { conn with phase := .stopping resume, opens := opens } := by
  refine h.shrink ?_ ?_ ?_ fun _ _ heq => by cases heq
  · simp [Conn.frames, hphase, Phase.frames]
  · simp [Conn.pending, hphase, hopens]
  · intro t ht
    exact ⟨by simp [Conn.frames, hphase, Phase.frames], by simpa [Conn.target, hphase] using ht⟩

theorem ConnInv.queue (h : ConnInv foreign w p conn) (hq : conn.queue = some conn') :
    ConnInv foreign w p conn' := by
  cases hphase : conn.phase with
  | reading => simp [Conn.queue, hphase] at hq
  | stopping => simp [Conn.queue, hphase] at hq
  | queueing frames forward =>
    have hforward := h.exclusive frames forward hphase
    cases frames with
    | cons f frames =>
      simp only [Conn.queue, hphase, Option.some.injEq] at hq
      subst hq
      refine h.shrink ?_ ?_ (fun t ht => ⟨?_, ?_⟩) fun _ _ _ => hforward
      · simp [Conn.frames, hphase, Phase.frames]
      · simp [Conn.pending, hphase]
      · simp [Conn.frames, hphase, Phase.frames]
      · simpa [Conn.target, hphase] using ht
    | nil =>
      cases forward with
      | none =>
        simp only [Conn.queue, hphase, Option.some.injEq] at hq
        subst hq
        refine h.shrink ?_ ?_ (fun t ht => ?_) fun _ _ heq => by cases heq
        · simp [Conn.frames, hphase, Phase.frames]
        · simp [Conn.pending, hphase]
        · simp [Conn.target, hforward] at ht
      | some target =>
        simp only [Conn.queue, hphase, Option.some.injEq] at hq
        subst hq
        refine h.shrink ?_ ?_ (fun t ht => ⟨?_, ?_⟩) fun _ _ heq => by cases heq
        · simp [Conn.frames, hphase, hforward, Phase.frames]
        · simp [Conn.pending, hphase]
        · simp [Conn.frames, hphase, hforward, Phase.frames]
        · simpa [Conn.target, hphase] using ht

end Webshell
