import Webshell.Pty.Mux

/-!
# The end of the session

A mux connection with the deadline of its session and the revocation that it watches. The select of
the connection loop picks any arm that is ready, so it may take a client frame when the session is
over.

## Main definitions

- `Watched`, `watchedSystem`: the connection, and the two arms that end it
- `Accepts`: a step that handles a frame taken when the session was over, and puts a command into a
  queue, opens a channel or spawns a shell
- `Prompt`: a frame taken then can do none of these

## Main results

- `accepts_nothing_of_prompt`: nothing is accepted in the runs of such steps, and any other input or
  resize is
- `input_after_logout`: input that is taken after a logout
-/

namespace Webshell.MuxBridge

open Transition

structure Watched where
  mux : Mux
  now : ℕ
  deadline : ℕ
  /-- The receiver has a `true` that it has not seen, or no sender is left. -/
  signalled : Bool
  /-- The last frame was taken when the session was over. -/
  late : Bool

inductive WatchedAct
  | mux (a : Act)
  | tick (later : ℕ)
  /-- The session is revoked. -/
  | signal
  | deadlineArm
  | revocationArm

namespace Watched

/-- The revocation was signalled, or the deadline has passed. -/
def sessionOver (s : Watched) : Bool := s.signalled || decide (s.deadline ≤ s.now)

/-- The loop is at its select. -/
def Selects (s : Watched) : Prop := s.mux.looping = true ∧ s.mux.phase = .reading

instance (s : Watched) : Decidable s.Selects := inferInstanceAs (Decidable (_ ∧ _))

end Watched

def watchedStep (s : Watched) : WatchedAct → Option Watched
  | .mux a => do
    let mux ← muxStep s.mux a
    some { s with
      mux := mux
      late := match a with
        | .frame _ => s.sessionOver
        | _ => s.late }
  | .tick later => some { s with now := s.now + later }
  | .signal => some { s with signalled := true }
  | .deadlineArm =>
    if s.Selects ∧ s.deadline ≤ s.now then some { s with mux := s.mux.leave } else none
  | .revocationArm =>
    if s.Selects ∧ s.signalled = true then some { s with mux := s.mux.leave } else none

def watchedSystem : System Watched WatchedAct where
  init s := ∃ slotsPerUser deadline, s = ⟨emptyMux slotsPerUser, 0, deadline, false, false⟩
  step := watchedStep

/-- The step takes a frame when the session is over, or goes on with one that was taken then. -/
def Late (s : Watched) : WatchedAct → Prop
  | .mux (.frame _) => s.sessionOver = true
  | .mux (.attach _) | .mux .resizePty | .mux .queueHello | .mux .queueReplay
  | .mux .queueRefusal => s.late = true
  | _ => False

/-- A command has come into a queue, a shell has been spawned, or a channel has been opened. -/
def Touches (s s' : Mux) : Prop :=
  (∃ epoch, (s'.terminals epoch).map Terminal.queue ≠ (s.terminals epoch).map Terminal.queue) ∨
    ∃ slot ch, s'.channels slot = some ch ∧ s.channels slot = none

def Accepts (s : Watched) (a : WatchedAct) : Prop :=
  Late s a ∧ ∃ s', watchedStep s a = some s' ∧ Touches s.mux s'.mux

/-- The slot has an open channel that is not read-only, and the queue behind it takes a command. -/
def Mux.Writable (s : Mux) (slot : ℕ) : Prop :=
  ∃ ch term, s.channels slot = some ch ∧ ch.readOnly = false ∧ s.terminals ch.epoch = some term ∧
    term.queue.Accepts

/-- A frame that can reach a terminal: input or a resize for a writable channel, or an open of a
slot that there is. -/
def Frame.Effective (s : Mux) : Frame → Prop
  | .binary (b :: _) => s.Writable b.toNat
  | .resize term _ _ => s.Writable term
  | .openSlot o => o.term < s.slotsPerUser
  | .binary [] | .mode _ _ | .close _ | .malformed => False

/-- No effective frame is taken when the session is over. -/
def Prompt (s : Watched) (a : WatchedAct) : Prop :=
  ∀ f, a = .mux (.frame f) → s.sessionOver = true → ¬ f.Effective s.mux

/-! ## What frames do -/

variable {s s' : Mux} {slot : ℕ}

theorem not_touches_of_eq (hterminals : s'.terminals = s.terminals)
    (hchannels : ∀ slot ch, s'.channels slot = some ch → s.channels slot ≠ none) :
    ¬ Touches s s' := by
  rintro (⟨epoch, hne⟩ | ⟨slot, ch, hch, hnone⟩)
  · exact hne (by rw [hterminals])
  · exact hchannels slot ch hch hnone

theorem not_touches_refl (s : Mux) : ¬ Touches s s :=
  not_touches_of_eq rfl fun _ _ hch hnone => by rw [hch] at hnone; cases hnone

/-- Channels that are only closed. -/
theorem ne_none_of_update {channels : ℕ → Option Channel} {u : ℕ} {ch : Channel}
    (h : Function.update channels slot none u = some ch) : channels u ≠ none := by
  by_cases hu : u = slot
  · subst hu
    rw [Function.update_self] at h
    cases h
  · rw [Function.update_of_ne hu] at h
    exact fun hnone => by rw [h] at hnone; cases hnone

theorem not_touches_leave (s : Mux) : ¬ Touches s s.leave :=
  not_touches_of_eq rfl fun _ _ hch => by cases hch

theorem not_touches_sendInput {ch : Channel} (hch : s.channels slot = some ch)
    (hro : ch.readOnly = false) (h : ¬ s.Writable slot) (bytes : List UInt8) :
    ¬ Touches s (s.sendInput ch.epoch bytes) := by
  rw [Mux.sendInput]
  split
  · exact not_touches_refl s
  next term hterm =>
    obtain ⟨e, he⟩ := SyncChannel.trySend_of_not_accepts (a := PtyCmd.input bytes)
      fun hacc => h ⟨ch, term, hch, hro, hterm, hacc⟩
    rw [he]
    exact not_touches_leave s

/-- A queue that refuses the command stays as it is. -/
theorem not_touches_offer {ch : Channel} (hch : s.channels slot = some ch)
    (hro : ch.readOnly = false) (h : ¬ s.Writable slot) (cmd : PtyCmd) :
    ¬ Touches s (s.offer ch.epoch cmd) := by
  cases hterm : s.terminals ch.epoch with
  | none =>
    rw [Mux.offer, hterm]
    exact not_touches_refl s
  | some term =>
    have hno : ¬ term.queue.Accepts := fun hacc => h ⟨ch, term, hch, hro, hterm, hacc⟩
    rw [Mux.offer_terminals hterm, SyncChannel.offer_of_not_accepts hno]
    have hsame : (s.setTerminal ch.epoch term).terminals = s.terminals := by
      funext epoch
      by_cases he : epoch = ch.epoch
      · rw [he, hterm]
        exact Function.update_self ..
      · exact Function.update_of_ne he ..
    exact not_touches_of_eq hsame fun _ _ hch hnone => by cases hch.symm.trans hnone

/-- A frame that is not effective does nothing at once. -/
theorem not_touches_handle {f : Frame} (h : ¬ f.Effective s) : ¬ Touches s (s.handle f) := by
  cases f with
  | binary bytes =>
    cases bytes with
    | nil => exact not_touches_refl s
    | cons b bytes =>
      simp only [Mux.handle]
      split
      · exact not_touches_refl s
      next ch hch =>
        split
        · exact not_touches_refl s
        next hro => exact not_touches_sendInput hch (Bool.eq_false_iff.mpr hro) h bytes
  | openSlot o => exact not_touches_of_eq rfl fun _ _ => ne_none_of_update
  | resize term cols rows =>
    simp only [Mux.handle]
    split
    · exact not_touches_refl s
    next ch hch =>
      split
      · exact not_touches_refl s
      next hro => exact not_touches_offer hch (Bool.eq_false_iff.mpr hro) h _
  | mode term ro =>
    simp only [Mux.handle]
    split
    · exact not_touches_refl s
    next ch hch =>
      refine not_touches_of_eq rfl fun u c hc => ?_
      by_cases hu : u = term
      · rw [hu, hch]
        exact Option.some_ne_none ch
      · have hold : s.channels u = some c := (Function.update_of_ne hu ..).symm.trans hc
        rw [hold]
        exact Option.some_ne_none c
  | close term => exact not_touches_of_eq rfl fun _ _ => ne_none_of_update
  | malformed => exact not_touches_refl s

/-- An effective frame that is no open reaches a queue at once. -/
theorem touches_handle {f : Frame} (h : f.Effective s) (hopen : ∀ o, f ≠ .openSlot o) :
    Touches s (s.handle f) := by
  have hqueue : ∀ {epoch : ℕ} {term : Terminal} {queue : SyncChannel PtyCmd 128} {cmd : PtyCmd},
      s.terminals epoch = some term → queue.items = term.queue.items ++ [cmd] →
        Touches s (s.setTerminal epoch { term with queue := queue }) := by
    intro epoch term queue cmd hterm hitems
    refine .inl ⟨epoch, fun hsame => ?_⟩
    have hset : (s.setTerminal epoch { term with queue := queue }).terminals epoch =
        some { term with queue := queue } := Function.update_self ..
    rw [hset, hterm, Option.map_some, Option.map_some, Option.some.injEq] at hsame
    have hlength := congrArg (fun q => q.items.length) hsame
    simp [hitems] at hlength
  cases f with
  | binary bytes =>
    cases bytes with
    | nil => exact h.elim
    | cons b bytes =>
      obtain ⟨ch, term, hch, hro, hterm, hacc⟩ := h
      obtain ⟨queue, hsend, hitems, _⟩ :=
        SyncChannel.trySend_of_accepts (a := PtyCmd.input bytes) hacc
      have hhandle : s.handle (.binary (b :: bytes)) =
          s.setTerminal ch.epoch { term with queue := queue } := by
        simp only [Mux.handle, hch, hro, Bool.false_eq_true, if_false, Mux.sendInput, hterm, hsend]
      rw [hhandle]
      exact hqueue hterm hitems
  | resize slot cols rows =>
    obtain ⟨ch, term, hch, hro, hterm, hacc⟩ := h
    have hhandle : s.handle (.resize slot cols rows) = s.setTerminal ch.epoch { term with
        queue := term.queue.offer (.resize (validSize cols rows).1 (validSize cols rows).2) } := by
      simp only [Mux.handle, hch, hro, Bool.false_eq_true, if_false, Mux.offer_terminals hterm]
    rw [hhandle]
    exact hqueue hterm (SyncChannel.offer_of_accepts hacc)
  | openSlot o => exact absurd rfl (hopen o)
  | mode | close | malformed => exact h.elim

/-! ## Runs -/

/-- An open that was taken late finds its slot out of range. -/
def LateInv (s : Watched) : Prop :=
  s.late = true → match s.mux.phase with
    | .reading | .refusing _ => True
    | .attaching o _ => s.mux.slotsPerUser ≤ o.term
    | _ => False

theorem attach_out_of_range {index : ℕ} (h : s.slotsPerUser ≤ index) (cols rows : ℕ)
    (spawns : Bool) : s.attach index cols rows spawns = (s, none) := by
  simp only [Mux.attach, if_neg (not_lt.mpr h)]

variable {w w' : Watched} {a : WatchedAct}

@[simp] theorem Mux.offer_slotsPerUser (s : Mux) (epoch : ℕ) (cmd : PtyCmd) :
    (s.offer epoch cmd).slotsPerUser = s.slotsPerUser := by
  rw [offer]
  split <;> rfl

theorem attach_keeps (s : Mux) (index cols rows : ℕ) (spawns : Bool) :
    (s.attach index cols rows spawns).1.phase = s.phase ∧
      (s.attach index cols rows spawns).1.slotsPerUser = s.slotsPerUser := by
  have htake : (s.takeSlot index).phase = s.phase ∧
      (s.takeSlot index).slotsPerUser = s.slotsPerUser := by
    rw [Mux.takeSlot]
    split
    · exact ⟨rfl, rfl⟩
    · exact ⟨s.offer_phase .., s.offer_slotsPerUser ..⟩
  obtain heq | ⟨epoch, _, heq⟩ | ⟨_, heq⟩ | ⟨_, heq⟩ := s.attach_cases index cols rows spawns
  · exact heq ▸ ⟨rfl, rfl⟩
  · exact heq ▸ ⟨rfl, rfl⟩
  · exact heq ▸ htake
  · exact heq ▸ htake

/-- A frame is handled at once, but for an open. -/
theorem phase_handle (hphase : s.phase = .reading) (f : Frame) :
    (s.handle f).phase = .reading ∨
      ∃ o wasReadOnly, f = .openSlot o ∧ (s.handle f).phase = .attaching o wasReadOnly := by
  cases f with
  | binary bytes =>
    refine .inl ?_
    cases bytes with
    | nil => exact hphase
    | cons b bytes =>
      simp only [Mux.handle]
      split
      · exact hphase
      · split
        · exact hphase
        · rw [Mux.sendInput]
          split
          · exact hphase
          · split
            · exact hphase
            · rfl
  | openSlot o => exact .inr ⟨o, _, rfl, rfl⟩
  | resize term cols rows =>
    refine .inl ?_
    simp only [Mux.handle]
    split
    · exact hphase
    · split
      · exact hphase
      · exact (s.offer_phase ..).trans hphase
  | mode term ro =>
    refine .inl ?_
    simp only [Mux.handle]
    split <;> exact hphase
  | close term => exact .inl hphase
  | malformed => exact .inl hphase

/-- A step that is none of the loop's leaves the loop where it is, or ends it. -/
theorem LateInv.of_phase (h : LateInv w) (hlate : w'.late = true → w.late = true)
    (hphase : w'.mux.phase = .reading ∨
      (w'.mux.phase = w.mux.phase ∧ w'.mux.slotsPerUser = w.mux.slotsPerUser)) : LateInv w' := by
  intro hw'
  obtain hreading | ⟨hsame, hslots⟩ := hphase
  · rw [hreading]
    trivial
  · have hw := h (hlate hw')
    rw [hsame, hslots]
    exact hw

theorem LateInv.step (h : LateInv w) (hprompt : Prompt w a) (hstep : watchedStep w a = some w') :
    LateInv w' := by
  cases a with
  | tick later => exact Option.some.inj hstep ▸ h.of_phase id (.inr ⟨rfl, rfl⟩)
  | signal => exact Option.some.inj hstep ▸ h.of_phase id (.inr ⟨rfl, rfl⟩)
  | deadlineArm =>
    simp only [watchedStep, Option.ite_none_right_eq_some, Option.some.injEq] at hstep
    obtain ⟨_, rfl⟩ := hstep
    exact h.of_phase id (.inl rfl)
  | revocationArm =>
    simp only [watchedStep, Option.ite_none_right_eq_some, Option.some.injEq] at hstep
    obtain ⟨_, rfl⟩ := hstep
    exact h.of_phase id (.inl rfl)
  | mux a =>
    obtain ⟨mux, hmux, hw'⟩ := Option.bind_eq_some_iff.mp hstep
    obtain rfl := Option.some.inj hw'
    -- the steps of the terminals do not reach the loop
    have hterminal : ∀ epoch b, w.mux.stepTerminal epoch b = some mux →
        mux.phase = w.mux.phase ∧ mux.slotsPerUser = w.mux.slotsPerUser := by
      intro epoch b hb
      obtain ⟨term, _, hb⟩ := Option.bind_eq_some_iff.mp hb
      obtain ⟨term', _, hb⟩ := Option.bind_eq_some_iff.mp hb
      exact Option.some.inj hb ▸ ⟨rfl, rfl⟩
    cases a with
    | frame f =>
      intro hlate
      obtain ⟨_, hphase, rfl⟩ := muxStep_frame hmux
      obtain hreading | ⟨o, wasReadOnly, rfl, hattaching⟩ := phase_handle hphase f
      · dsimp only
        rw [hreading]
        trivial
      · dsimp only
        rw [hattaching]
        exact not_lt.mp (hprompt _ rfl hlate)
    | attach spawns =>
      intro hlate
      obtain ⟨o, wasReadOnly, phase, hphase, rfl, hnext⟩ := muxStep_attach hmux
      have hrange := h hlate
      rw [hphase] at hrange
      obtain rfl | ⟨epoch, spawned, hattached, _⟩ := hnext
      · trivial
      · rw [attach_out_of_range hrange] at hattached
        cases hattached
    | resizePty =>
      obtain ⟨o, wasReadOnly, epoch, spawned, hphase, rfl⟩ := muxStep_resizePty hmux
      intro hlate
      have hno := h hlate
      rw [hphase] at hno
      exact hno.elim
    | queueHello =>
      obtain ⟨o, epoch, hphase, _⟩ := muxStep_queueHello hmux
      intro hlate
      have hno := h hlate
      rw [hphase] at hno
      exact hno.elim
    | queueReplay =>
      obtain ⟨o, epoch, hphase, _⟩ := muxStep_queueReplay hmux
      intro hlate
      have hno := h hlate
      rw [hphase] at hno
      exact hno.elim
    | queueRefusal =>
      obtain ⟨o, _, rfl⟩ := muxStep_queueRefusal hmux
      refine h.of_phase id (.inl ?_)
      dsimp only
      split <;> rfl
    | hangUp =>
      simp only [muxStep, Option.ite_none_right_eq_some, Option.some.injEq] at hmux
      obtain ⟨_, rfl⟩ := hmux
      exact h.of_phase id (.inl rfl)
    | writerEnds =>
      obtain rfl := Option.some.inj hmux
      exact h.of_phase id (.inr ⟨rfl, rfl⟩)
    | forwardEnds term =>
      obtain ⟨ch, _, hmux⟩ := Option.bind_eq_some_iff.mp hmux
      obtain rfl := Option.some.inj hmux
      exact h.of_phase id (.inr ⟨rfl, rfl⟩)
    | foreignAttach term cols rows spawns =>
      simp only [muxStep, Option.ite_none_left_eq_some, Option.some.injEq] at hmux
      obtain ⟨_, rfl⟩ := hmux
      exact h.of_phase id (.inr (attach_keeps ..))
    | reset term =>
      simp only [muxStep, Option.ite_none_left_eq_some, Option.some.injEq] at hmux
      obtain ⟨_, rfl⟩ := hmux
      exact h.of_phase id (.inr ⟨rfl, rfl⟩)
    | exit epoch | nudge epoch | take epoch | reap epoch =>
      exact h.of_phase id (.inr (hterminal epoch _ hmux))
    | wrote epoch ok => exact h.of_phase id (.inr (hterminal epoch _ hmux))
    | foreignSend epoch cmd => exact h.of_phase id (.inr (hterminal epoch _ hmux))

theorem lateInv_of_reach (h : watchedSystem.Reach Prompt w) : LateInv w := by
  refine System.Reach.invariant ?_ (fun _ _ _ _ hw hprompt hstep => hw.step hprompt hstep) h
  rintro w ⟨slotsPerUser, deadline, rfl⟩ hlate
  cases hlate

/-- A late step of such a run touches nothing. -/
theorem LateInv.not_accepts (h : LateInv w) (hprompt : Prompt w a) : ¬ Accepts w a := by
  rintro ⟨hlate, w', hstep, htouches⟩
  cases a with
  | mux a =>
    obtain ⟨mux, hmux, hw'⟩ := Option.bind_eq_some_iff.mp hstep
    obtain rfl := Option.some.inj hw'
    cases a with
    | frame f =>
      obtain ⟨_, _, rfl⟩ := muxStep_frame hmux
      exact not_touches_handle (hprompt f rfl hlate) htouches
    | attach spawns =>
      obtain ⟨o, wasReadOnly, phase, hphase, rfl, _⟩ := muxStep_attach hmux
      have hrange := h hlate
      rw [hphase] at hrange
      rw [attach_out_of_range hrange] at htouches
      exact not_touches_refl w.mux htouches
    | resizePty =>
      obtain ⟨o, wasReadOnly, epoch, spawned, hphase, _⟩ := muxStep_resizePty hmux
      have hno := h hlate
      rw [hphase] at hno
      exact hno
    | queueHello =>
      obtain ⟨o, epoch, hphase, _⟩ := muxStep_queueHello hmux
      have hno := h hlate
      rw [hphase] at hno
      exact hno
    | queueReplay =>
      obtain ⟨o, epoch, hphase, _⟩ := muxStep_queueReplay hmux
      have hno := h hlate
      rw [hphase] at hno
      exact hno
    | queueRefusal =>
      obtain ⟨o, _, rfl⟩ := muxStep_queueRefusal hmux
      dsimp only at htouches
      split at htouches
      · exact not_touches_refl w.mux htouches
      · exact not_touches_leave w.mux htouches
    | _ => exact hlate
  | _ => exact hlate

/-- In the runs in which no effective frame is taken when the session is over, none that is taken
then reaches a queue, opens a channel or spawns a shell. After such a run, input or a resize that is
taken then is accepted exactly if it is effective. -/
theorem accepts_nothing_of_prompt (h : watchedSystem.Reach Prompt w) :
    (∀ a, Prompt w a → ¬ Accepts w a) ∧
      ∀ f, (∀ o, f ≠ .openSlot o) → w.Selects → w.sessionOver = true →
        (Accepts w (.mux (.frame f)) ↔ f.Effective w.mux) := by
  have hinv := lateInv_of_reach h
  refine ⟨fun a hprompt => hinv.not_accepts hprompt, fun f hopen hselects hover => ?_⟩
  have hmux : muxStep w.mux (.frame f) = some (w.mux.handle f) := if_pos hselects
  constructor
  · intro haccepts
    by_contra heffective
    refine hinv.not_accepts (fun f' hf' _ => ?_) haccepts
    obtain rfl : f = f' := by simpa using hf'
    exact heffective
  · intro heffective
    refine ⟨hover, { w with mux := w.mux.handle f, late := w.sessionOver }, ?_,
      touches_handle heffective hopen⟩
    simp only [watchedStep, hmux, Option.bind_eq_bind, Option.bind_some]

/-! ### A logout that the select misses -/

/-- A connection with an hour to go. -/
def connected : Watched := ⟨emptyMux 1, 0, 3600, false, false⟩

theorem connected_init : watchedSystem.init connected := ⟨1, 3600, rfl⟩

/-- A terminal is opened, and the user logs out in another tab. -/
def logoutRun : List WatchedAct :=
  [.mux (.frame (.openSlot ⟨0, 80, 24, false⟩)), .mux (.attach true), .mux .resizePty,
    .mux .queueHello, .mux .queueReplay, .signal]

def loggedOut : Watched := (watchedSystem.run connected logoutRun).getD connected

/-- Frames that are taken after that: the channel becomes read-only, is typed into, and becomes
writable again. -/
def lateFrames : List WatchedAct :=
  [.mux (.frame (.mode 0 true)), .mux (.frame (.binary [0, 0x78])), .mux (.frame (.mode 0 false))]

def lateTyped : Watched := (watchedSystem.run loggedOut lateFrames).getD connected

theorem loggedOut_prompt : watchedSystem.Reach Prompt loggedOut := by
  have hrun : watchedSystem.run connected logoutRun = some loggedOut := rfl
  have hactive : ∀ e ∈ watchedSystem.steps connected logoutRun, e.1.sessionOver = false := by decide
  refine System.Reach.run_steps (.init connected_init) (fun e he f _ hover => ?_) hrun
  exact absurd hover (by simp [hactive e he])

theorem lateTyped_prompt : watchedSystem.Reach Prompt lateTyped := by
  have hrun : watchedSystem.run loggedOut lateFrames = some lateTyped := rfl
  refine loggedOut_prompt.run_steps (fun e he f hf _ heffective => ?_) hrun
  have hsteps : watchedSystem.steps loggedOut lateFrames =
      [(loggedOut, .mux (.frame (.mode 0 true))),
        ({ loggedOut with mux := loggedOut.mux.handle (.mode 0 true), late := true },
          .mux (.frame (.binary [0, 0x78]))),
        ({ loggedOut with mux := loggedOut.mux.handle (.mode 0 true), late := true },
          .mux (.frame (.mode 0 false)))] := rfl
  rw [hsteps] at he
  simp only [List.mem_cons, List.not_mem_nil, or_false] at he
  rcases he with rfl | rfl | rfl
  · cases hf
    exact heffective
  · cases hf
    obtain ⟨ch, term, hch, hro, _⟩ := heffective
    cases hch
    cases hro
  · cases hf
    exact heffective

/-- The late frames did nothing, and the next input does. -/
theorem accepts_nothing_of_prompt_lateTyped :
    (∀ a, Prompt lateTyped a → ¬ Accepts lateTyped a) ∧
      Accepts lateTyped (.mux (.frame (.binary [0, 0x78]))) := by
  obtain ⟨hnothing, hframes⟩ := accepts_nothing_of_prompt lateTyped_prompt
  refine ⟨hnothing, (hframes (.binary [0, 0x78]) nofun (by decide) rfl).mpr ?_⟩
  exact ⟨_, _, rfl, rfl, rfl, by decide⟩

/-- The frame arm is picked although the revocation arm is ready. -/
theorem input_after_logout : ¬ ∀ w a, watchedSystem.Reachable w → ¬ Accepts w a := by
  intro h
  have heffective : (Frame.binary [0, 0x78]).Effective loggedOut.mux :=
    ⟨_, _, rfl, rfl, rfl, rfl, by decide⟩
  exact h loggedOut (.mux (.frame (.binary [0, 0x78]))) loggedOut_prompt.reachable
    ⟨rfl, _, rfl, touches_handle heffective nofun⟩

end Webshell.MuxBridge
