import Webshell.Pty.Seam

/-!
# Stream integrity over reconnects

Every step of a slot and its clients keeps the rings, the clients and everything between them in
agreement with the streams of the shells.

## Main definitions

- `SlotInv`: the invariant of a slot and its clients
- `Rules`, `ruledSystem`: the same slot with clients that keep to some of the rules only

## Main results

- `SlotInv.step`: every step keeps it
- `stream_integrity`: in every run, what a client holds is a segment of the stream
- `no_rule_can_be_left_out`: clients that append what is left of an old attachment, or send a
  position twice, hold bytes twice
-/

namespace Webshell

open Transition

variable {P : Type} {foreign : List ℕ} {w : World P} {v : View} {p : Peer} {conn : Conn}

/-- What every state keeps: the rings agree with their streams, and the clients with both. -/
structure SlotInv (foreign : List ℕ) (s : State P) : Prop where
  consistent : ∀ e sh, s.shells e = some sh → sh.Consistent
  peers : ∀ c, PeerInv foreign s.toWorld (s.peers c)

variable {s s' : State P}

/-- A connection on which nothing has been queued yet. -/
theorem connInv_of_quiet (hv : Good foreign w p.view) (hphase : conn.phase = .reading)
    (hforward : conn.forward = none) (hwire : conn.wire = [])
    (hcounted : p.greeted + conn.opens.length ≤ p.opened)
    (hcarried : ∀ e o, some (e, o) ∈ conn.opens →
      p.view.awaiting = true ∧ p.view.position = some (e, o))
    (hplain : ∀ r ∈ conn.opens.tail, r = none) : ConnInv foreign w p conn := by
  have hframes : conn.frames = [] := by simp [Conn.frames, hphase, hforward, hwire, Phase.frames]
  have hpending : conn.pending = conn.opens := by simp [Conn.pending, hphase]
  have hhello : helloModes conn.frames = [] := by rw [hframes]; rfl
  refine ⟨?_, ?_, ?_, ?_, ?_, ?_, ?_, fun _ _ _ => hforward⟩
  · rw [hhello, hpending]
    exact hcounted
  · rw [hframes]
    exact hv
  · intro t ht
    simp [Conn.target, hphase, hforward] at ht
  · rw [hhello]
    exact fun hhead => by cases hhead
  · rw [hhello]
    exact fun m hm => by cases hm
  · intro e o hmem
    rw [hpending] at hmem
    exact ⟨hhello, hcarried e o hmem⟩
  · rw [hpending]
    exact hplain

theorem SlotInv.setWorld (h : SlotInv foreign s) (hw : s.toWorld.Extends foreign w)
    (hcons : ∀ e sh, w.shells e = some sh → sh.Consistent) : SlotInv foreign (s.setWorld w) :=
  ⟨hcons, fun c => (h.peers c).mono hw⟩

theorem SlotInv.setPeer (h : SlotInv foreign s) {c : ℕ} (hp : PeerInv foreign s.toWorld p) :
    SlotInv foreign (s.setPeer c p) := by
  refine ⟨h.consistent, fun c' => ?_⟩
  change PeerInv foreign s.toWorld (Function.update s.peers c p c')
  by_cases hc : c' = c
  · rw [hc, Function.update_self]
    exact hp
  · rw [Function.update_of_ne hc]
    exact h.peers c'

theorem SlotInv.setConn (h : SlotInv foreign s) {c : ℕ}
    (hconn : ConnInv foreign s.toWorld (s.peers c) conn) :
    SlotInv foreign (s.setConn c (some conn)) := by
  refine h.setPeer ⟨(h.peers c).good, fun conn' heq => ?_⟩
  obtain rfl := Option.some.inj heq
  exact hconn.withConn _

theorem SlotInv.dropConn (h : SlotInv foreign s) (c : ℕ) : SlotInv foreign (s.setConn c none) :=
  h.setPeer ⟨(h.peers c).good, fun _ heq => by cases heq⟩

/-- A shell that has put out more, or a new one with a new epoch. -/
theorem SlotInv.setShell (h : SlotInv foreign s) (e : ℕ) {sh' : Shell P} (slot : Option ℕ)
    (hsent : ∀ sh, s.shells e = some sh → sh.output.sent <+: sh'.output.sent)
    (hfresh : s.shells e = none → e ∉ foreign) (hcons : sh'.Consistent) :
    SlotInv foreign (s.setWorld { s.toWorld.setShell e sh' with slot := slot }) := by
  refine h.setWorld ⟨fun e' sh hsh => ?_, fun e' hnone hne => ?_⟩ fun e' sh hsh => ?_
  · by_cases he : e' = e
    · subst he
      exact ⟨sh', by simp [World.setShell], hsent sh hsh⟩
    · exact ⟨sh, by simp [World.setShell, he, hsh], List.prefix_rfl⟩
  · by_cases he : e' = e
    · subst he
      exact hfresh hnone
    · simp [World.setShell, he, hnone] at hne
  · by_cases he : e' = e
    · subst he
      simp only [World.setShell, Function.update_self, Option.some.injEq] at hsh
      exact hsh ▸ hcons
    · simp only [World.setShell, Function.update_of_ne he] at hsh
      exact h.consistent e' sh hsh

/-- A shell that has put out more. -/
theorem SlotInv.growShell (h : SlotInv foreign s) {e : ℕ} {sh : Shell P} (sh' : Shell P)
    (hsh : s.shells e = some sh) (hsent : sh.output.sent <+: sh'.output.sent)
    (hcons : sh'.Consistent) : SlotInv foreign (s.setWorld (s.toWorld.setShell e sh')) := by
  refine h.setShell e s.slot (fun sh₁ hsh₁ => ?_) (fun hnone => ?_) hcons
  · obtain rfl := Option.some.inj (hsh.symm.trans hsh₁)
    exact hsent
  · rw [hsh] at hnone
    cases hnone

theorem slotInv_init [Vt100 P] {cap : ℕ} (h : (slotSystem P cap foreign).init s) :
    SlotInv foreign s := by
  obtain ⟨hshells, _, hpeers⟩ := h
  refine ⟨fun e sh hsh => absurd (hsh.symm.trans (hshells e)) (by simp), fun c => ⟨?_, ?_⟩⟩
  · intro held hheld
    refine ⟨fun _ => (hpeers c).2 held hheld, fun sh hsh => ?_⟩
    rw [hshells] at hsh
    cases hsh
  · intro conn hconn
    rw [(hpeers c).1] at hconn
    cases hconn

theorem World.running_eq_some {w : World P} {epoch : ℕ} {sh : Shell P}
    (h : w.running = some (epoch, sh)) : w.shells epoch = some sh := by
  obtain ⟨e, _, hbind⟩ := Option.bind_eq_some_iff.mp h
  obtain ⟨sh', hsh', hsome⟩ := Option.bind_eq_some_iff.mp hbind
  split at hsome
  · obtain ⟨rfl, rfl⟩ := Prod.mk.inj (Option.some.inj hsome)
    exact hsh'
  · cases hsome

variable [Vt100 P] {cap : ℕ}

theorem SlotInv.attachStep (h : SlotInv foreign s) {c cols rows : ℕ} {spawn : Option ℕ}
    (hstep : attachStep cap foreign s c cols rows spawn = some s') : SlotInv foreign s' := by
  obtain ⟨conn, hconn, hmatch⟩ := Option.bind_eq_some_iff.mp hstep
  have hinv := (h.peers c).conn conn hconn
  cases hphase : conn.phase with
  | reading => simp [hphase] at hmatch
  | queueing => simp [hphase] at hmatch
  | stopping resume =>
    cases hforward : conn.forward with
    | some fwd => simp [hphase, hforward] at hmatch
    | none =>
      cases hrun : s.running with
      | some running =>
        obtain ⟨epoch, sh⟩ := running
        simp only [hphase, hforward, hrun, Option.some.injEq] at hmatch
        subst hmatch
        have hsh : s.shells epoch = some sh := World.running_eq_some hrun
        exact h.setConn (hinv.attached hphase hforward hsh (h.consistent _ _ hsh))
      | none =>
        cases hview : conn.view with
        | true =>
          simp only [hphase, hforward, hrun, hview, Option.some.injEq] at hmatch
          subst hmatch
          exact h.dropConn c
        | false =>
          cases spawn with
          | none =>
            simp only [hphase, hforward, hrun, hview, Option.some.injEq] at hmatch
            subst hmatch
            have hrefused := hinv.refused hphase hforward
            rw [hview, hforward] at hrefused
            exact h.setConn hrefused
          | some epoch =>
            simp only [hphase, hforward, hrun, hview] at hmatch
            split at hmatch
            case isFalse => cases hmatch
            case isTrue hfresh =>
              obtain rfl := Option.some.inj hmatch
              have hcons : (Shell.spawn cap cols rows : Shell P).Consistent :=
                Shell.consistent_spawn cap cols rows
              have hworld := h.setShell epoch (some epoch)
                (fun sh hsh => by rw [hfresh.1] at hsh; cases hsh) (fun _ => hfresh.2) hcons
              refine hworld.setConn (((hworld.peers c).conn conn hconn).attached hphase hforward
                ?_ hcons)
              simp [State.setWorld, World.setShell]

/-- Every step keeps the streams whole. -/
theorem SlotInv.step (h : SlotInv foreign s) {a : Act}
    (hstep : slotStep cap foreign s a = some s') : SlotInv foreign s' := by
  cases a with
  | output epoch chunk =>
    obtain ⟨sh, hsh, hsome⟩ := Option.bind_eq_some_iff.mp hstep
    split at hsome
    · obtain rfl := Option.some.inj hsome
      exact h.growShell _ hsh ⟨[chunk], rfl⟩ ((h.consistent _ _ hsh).readChunk chunk)
    · cases hsome
  | exit epoch =>
    obtain ⟨sh, hsh, hsome⟩ := Option.bind_eq_some_iff.mp hstep
    obtain rfl := Option.some.inj hsome
    have hcons : sh.Consistent := h.consistent _ _ hsh
    exact h.growShell _ hsh List.prefix_rfl hcons
  | resize epoch cols rows =>
    obtain ⟨sh, hsh, hsome⟩ := Option.bind_eq_some_iff.mp hstep
    obtain rfl := Option.some.inj hsome
    exact h.growShell _ hsh List.prefix_rfl
      (Scrollback.Holds.resize (h.consistent _ _ hsh) _ _)
  | reset =>
    obtain rfl := Option.some.inj hstep
    exact h.setWorld ⟨fun e sh hsh => ⟨sh, hsh, List.prefix_rfl⟩, fun e hnone hne =>
      absurd hnone hne⟩ h.consistent
  | connect c =>
    obtain rfl := Option.some.inj hstep
    refine h.setPeer ⟨(h.peers c).good, fun conn hconn => ?_⟩
    obtain rfl := Option.some.inj hconn
    exact connInv_of_quiet (h.peers c).good rfl rfl rfl le_rfl (fun e o hmem => by cases hmem)
      fun r hr => by cases hr
  | connectView c carry =>
    obtain rfl := Option.some.inj hstep
    refine h.setPeer ⟨(h.peers c).good.sendOpen, fun conn hconn => ?_⟩
    obtain rfl := Option.some.inj hconn
    refine connInv_of_quiet (h.peers c).good.sendOpen rfl rfl rfl le_rfl (fun e o hmem => ?_)
      fun r hr => by cases hr
    cases hc : carry with
    | false => simp [hc] at hmem
    | true =>
      simp only [hc, if_true, List.mem_singleton] at hmem
      exact ⟨rfl, hmem.symm⟩
  | drop c =>
    obtain rfl := Option.some.inj hstep
    exact h.dropConn c
  | sendOpen c carry =>
    obtain ⟨conn, hconn, hsome⟩ := Option.bind_eq_some_iff.mp hstep
    split at hsome
    case isFalse => cases hsome
    case isTrue hcarry =>
      obtain rfl := Option.some.inj hsome
      refine h.setPeer ⟨(h.peers c).good.sendOpen, fun conn' hconn' => ?_⟩
      obtain rfl := Option.some.inj hconn'
      exact (((h.peers c).conn conn hconn).sendOpen (h.peers c).good hcarry.2).withConn _
  | readOpen c =>
    obtain ⟨conn, hconn, hmatch⟩ := Option.bind_eq_some_iff.mp hstep
    split at hmatch
    next resume opens hphase hopens =>
      obtain rfl := Option.some.inj hmatch
      exact h.setConn (((h.peers c).conn conn hconn).readOpen hphase hopens)
    next => cases hmatch
  | endForward c =>
    obtain ⟨conn, hconn, hsome⟩ := Option.bind_eq_some_iff.mp hstep
    obtain rfl := Option.some.inj hsome
    exact h.setConn ((h.peers c).conn conn hconn).endForward
  | attach c cols rows spawn => exact h.attachStep hstep
  | queue c =>
    obtain ⟨conn, hconn, hbind⟩ := Option.bind_eq_some_iff.mp hstep
    obtain ⟨conn', hq, hsome⟩ := Option.bind_eq_some_iff.mp hbind
    obtain rfl := Option.some.inj hsome
    exact h.setConn (((h.peers c).conn conn hconn).queue hq)
  | receive c =>
    obtain ⟨conn, hconn, hbind⟩ := Option.bind_eq_some_iff.mp hstep
    obtain ⟨fwd, hsel, hbind⟩ := Option.bind_eq_some_iff.mp hbind
    obtain ⟨sh, hsh, hbind⟩ := Option.bind_eq_some_iff.mp hbind
    obtain ⟨fwd', hrecv, hsome⟩ := Option.bind_eq_some_iff.mp hbind
    obtain rfl := Option.some.inj hsome
    exact h.setConn (((h.peers c).conn conn hconn).receive hsel hsh hrecv)
  | redraw c =>
    obtain ⟨conn, hconn, hbind⟩ := Option.bind_eq_some_iff.mp hstep
    obtain ⟨fwd, hsel, hbind⟩ := Option.bind_eq_some_iff.mp hbind
    obtain ⟨sh, hsh, hsome⟩ := Option.bind_eq_some_iff.mp hbind
    have hle : fwd.rx ≤ sh.output.sent.length := by
      obtain ⟨sh₁, hsh₁, hle, _⟩ := ((h.peers c).conn conn hconn).target_of_selecting hsel
      obtain rfl := Option.some.inj (hsh.symm.trans hsh₁)
      exact hle
    obtain ⟨scrollback, heq, hcons, hcase⟩ := Shell.redraw_cases hle
    generalize sh.redraw fwd.rx = drawn at hsome heq hcase
    obtain ⟨r, sh', rx⟩ := drawn
    obtain rfl : sh' = { sh with scrollback := scrollback } := heq
    obtain rfl := Option.some.inj hsome
    have hworld := h.growShell { sh with scrollback := scrollback } hsh List.prefix_rfl
      (hcons (h.consistent _ _ hsh))
    have hsh' : (s.setWorld (s.toWorld.setShell fwd.epoch
        { sh with scrollback := scrollback })).shells fwd.epoch =
          some { sh with scrollback := scrollback } := by
      simp [State.setWorld, World.setShell]
    exact hworld.setConn (((hworld.peers c).conn conn hconn).redraw hsel hsh' hcase)
  | shutdown c =>
    obtain ⟨conn, hconn, hbind⟩ := Option.bind_eq_some_iff.mp hstep
    obtain ⟨fwd, hsel, hbind⟩ := Option.bind_eq_some_iff.mp hbind
    obtain ⟨sh, hsh, hsome⟩ := Option.bind_eq_some_iff.mp hbind
    split at hsome
    · obtain rfl := Option.some.inj hsome
      exact h.setConn (((h.peers c).conn conn hconn).shutdown hsel)
    · cases hsome
  | queueHand c =>
    obtain ⟨conn, hconn, hbind⟩ := Option.bind_eq_some_iff.mp hstep
    obtain ⟨conn', hq, hsome⟩ := Option.bind_eq_some_iff.mp hbind
    obtain rfl := Option.some.inj hsome
    exact h.setConn (((h.peers c).conn conn hconn).queueHand hq)
  | deliver c =>
    obtain ⟨conn, hconn, hmatch⟩ := Option.bind_eq_some_iff.mp hstep
    have hinv := (h.peers c).conn conn hconn
    split at hmatch
    case h_2 => cases hmatch
    case h_1 f wire hwire =>
      obtain rfl := Option.some.inj hmatch
      have hdeliver : ConnInv foreign s.toWorld
          { s.peers c with
            view := (s.peers c).view.receive f
            greeted := (s.peers c).greeted + (helloModes [f]).length }
          { conn with wire := wire } := by
        refine hinv.deliver ?_ ?_ ?_ hinv.exclusive
        · simp [Conn.frames, hwire]
        · rfl
        · rfl
      refine h.setPeer ⟨hdeliver.good.head, fun conn' hconn' => ?_⟩
      obtain rfl := Option.some.inj hconn'
      exact hdeliver.withConn _

/-- **Stream integrity**: whatever the schedule, the bytes a client holds of a shell are the
shell's output from the base of its last replay to its byte counter. -/
theorem stream_integrity {cap : ℕ} {foreign : List ℕ} {s : State P}
    (hs : (slotSystem P cap foreign).Reachable s) {c : ℕ} {held : Held}
    (hheld : (s.peers c).view.held = some held) {sh : Shell P}
    (hsh : s.shells held.epoch = some sh) :
    held.base ≤ held.offset ∧ held.offset ≤ sh.stream.length ∧
      held.bytes = (sh.stream.take held.offset).drop held.base := by
  have hinv : SlotInv foreign s := by
    refine System.Reach.invariant ?_ ?_ hs
    · intro s hinit
      exact slotInv_init hinit
    · intro s a s' _ hinv _ hstep
      change slotStep cap foreign s a = some s' at hstep
      exact hinv.step hstep
  have hseg := ((hinv.peers c).good held hheld).2 sh hsh
  exact ⟨hseg.base_le, hseg.offset_le, hseg.bytes⟩

/-! ## A run -/

def emptySlot : State Unit where
  shells := fun _ => none
  slot := none
  peers := fun _ => { view := { held := none, awaiting := false }, opened := 0, greeted := 0,
                      conn := none }

theorem init_emptySlot : (slotSystem Unit 4 []).init emptySlot :=
  ⟨fun _ => rfl, rfl, fun _ => ⟨rfl, fun held hheld => by cases hheld⟩⟩

/-- A replay and a live chunk, a connection that drops, a chunk missed, and a resume. -/
def reconnectRun : List Act :=
  [.connect 0, .sendOpen 0 false, .readOpen 0, .attach 0 80 24 (some 7), .queue 0, .queue 0,
    .queue 0, .output 7 [97, 98], .receive 0, .queueHand 0, .deliver 0, .deliver 0, .deliver 0,
    .drop 0, .output 7 [99], .connect 0, .sendOpen 0 true, .readOpen 0, .attach 0 80 24 none,
    .queue 0, .queue 0, .deliver 0, .deliver 0]

theorem stream_integrity_reconnectRun :
    ∃ s sh, (slotSystem Unit 4 []).run emptySlot reconnectRun = some s ∧
      s.shells 7 = some sh ∧ sh.stream = [97, 98, 99] ∧
      (s.peers 0).view.held = some ⟨7, 0, 3, [97, 98, 99]⟩ ∧
      [97, 98, 99] = (sh.stream.take 3).drop 0 := by
  have hrun : ((slotSystem Unit 4 []).run emptySlot reconnectRun).map (fun s =>
      ((s.peers 0).view.held, (s.shells 7).map Shell.stream)) =
        some (some ⟨7, 0, 3, [97, 98, 99]⟩, some [97, 98, 99]) := by decide
  obtain ⟨s, hs, heq⟩ := Option.map_eq_some_iff.mp hrun
  obtain ⟨hheld, hstream⟩ := Prod.mk.inj heq
  obtain ⟨sh, hsh, hbytes⟩ := Option.map_eq_some_iff.mp hstream
  have hinit : (slotSystem Unit 4 []).Reachable emptySlot := .init init_emptySlot
  have hreach := System.Reachable.run hinit hs
  exact ⟨s, sh, hs, hsh, hbytes, hheld, (stream_integrity hreach hheld hsh).2.2⟩

/-! ## Clients without the rules -/

/-- What a client keeps to: it drops the data between an open and its hello, and its opens carry a
position only while no other one is unanswered. -/
structure Rules where
  drops : Bool
  waits : Bool

/-- The steps of the slot, with clients that keep to these rules. -/
def ruledStep (rules : Rules) (cap : ℕ) (foreign : List ℕ) (s : State P) :
    Act → Option (State P)
  | .sendOpen c carry => do
    let p := s.peers c
    let conn ← p.conn
    if conn.view = false ∧ (rules.waits = true → carry = true → p.opened = p.greeted) then
      let opens := conn.opens ++ [if carry then p.view.position else none]
      some (s.setPeer c
        { p with
          view := p.view.sendOpen, opened := p.opened + 1
          conn := some { conn with opens := opens } })
    else none
  | .deliver c => do
    let p := s.peers c
    let conn ← p.conn
    match conn.wire with
    | f :: wire =>
      let view := if rules.drops then p.view else { p.view with awaiting := false }
      some (s.setPeer c
        { p with
          view := view.receive f, greeted := p.greeted + (helloModes [f]).length
          conn := some { conn with wire := wire } })
    | [] => none
  | a => slotStep cap foreign s a

def ruledSystem (P : Type) [Vt100 P] (rules : Rules) (cap : ℕ) (foreign : List ℕ) :
    System (State P) Act where
  init := (slotSystem P cap foreign).init
  step := ruledStep rules cap foreign

/-- With both rules this is the slot above. -/
theorem ruledStep_both (cap : ℕ) (foreign : List ℕ) (s : State P) (a : Act) :
    ruledStep ⟨true, true⟩ cap foreign s a = slotStep cap foreign s a := by
  cases a with
  | sendOpen c carry => simp only [ruledStep, slotStep, true_imp_iff]
  | _ => rfl

/-- Every client holds a segment of the stream of its shell. -/
def Intact (s : State P) : Prop :=
  ∀ c held, (s.peers c).view.held = some held → ∀ sh, s.shells held.epoch = some sh →
    held.base ≤ held.offset ∧ held.offset ≤ sh.stream.length ∧
      held.bytes = (sh.stream.take held.offset).drop held.base

/-- A client that holds two bytes, and a third one that is put out. -/
def thirdByte : List Act :=
  [.connect 0, .sendOpen 0 false, .readOpen 0, .attach 0 80 24 (some 7), .queue 0, .queue 0,
    .queue 0, .output 7 [97, 98], .receive 0, .queueHand 0, .deliver 0, .deliver 0, .deliver 0,
    .output 7 [99]]

/-- The third byte is on its way to the client when it opens the slot again. -/
def overtakenRun : List Act :=
  thirdByte ++ [.receive 0, .queueHand 0, .sendOpen 0 true, .readOpen 0, .endForward 0,
    .attach 0 80 24 none, .queue 0, .queue 0, .deliver 0, .deliver 0, .deliver 0]

/-- The client opens the slot twice, both times from where it stands. -/
def impatientRun : List Act :=
  thirdByte ++ [.sendOpen 0 true, .sendOpen 0 true, .readOpen 0, .endForward 0,
    .attach 0 80 24 none, .queue 0, .queue 0, .queue 0, .readOpen 0, .endForward 0,
    .attach 0 80 24 none, .queue 0, .queue 0, .deliver 0, .deliver 0, .deliver 0, .deliver 0]

/-- A run after which a client holds the third byte twice. -/
theorem not_intact_of_run {rules : Rules} (acts : List Act)
    (hrun : ((ruledSystem Unit rules 4 []).run emptySlot acts).map (fun s =>
      ((s.peers 0).view.held, (s.shells 7).map Shell.stream)) =
        some (some ⟨7, 0, 3, [97, 98, 99, 99]⟩, some [97, 98, 99])) :
    ¬ ∀ s, (ruledSystem Unit rules 4 []).Reachable s → Intact s := by
  intro h
  obtain ⟨s, hs, heq⟩ := Option.map_eq_some_iff.mp hrun
  obtain ⟨hheld, hstream⟩ := Prod.mk.inj heq
  obtain ⟨sh, hsh, hbytes⟩ := Option.map_eq_some_iff.mp hstream
  have hinit : (ruledSystem Unit rules 4 []).Reachable emptySlot := .init init_emptySlot
  have hreach := System.Reachable.run hinit hs
  have hsegment := (h s hreach 0 _ hheld sh hsh).2.2
  rw [hbytes] at hsegment
  exact absurd hsegment (by decide)

/-- A client that appends every data frame, one that does so but sends its position only once, and
one that drops the rest of an old attachment but sends its position again. -/
theorem no_rule_can_be_left_out :
    (¬ ∀ s, (ruledSystem Unit ⟨false, false⟩ 4 []).Reachable s → Intact s) ∧
      (¬ ∀ s, (ruledSystem Unit ⟨false, true⟩ 4 []).Reachable s → Intact s) ∧
      ¬ ∀ s, (ruledSystem Unit ⟨true, false⟩ 4 []).Reachable s → Intact s :=
  ⟨not_intact_of_run overtakenRun (by decide),
    not_intact_of_run overtakenRun (by decide),
    not_intact_of_run impatientRun (by decide)⟩

end Webshell
