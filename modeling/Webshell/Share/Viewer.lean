import Webshell.Lib.History
import Webshell.Lib.Transition
import Webshell.Share.Store

/-!
# Share viewers

The bridges of the viewers of a store's grants, and the store operations of everyone else. A send
checks the expiry, then the revocation, and then hands the frame to the sink, where the write may
fail at any time, whichever of the stall limit, the deadline, the revocation and the peer ends it.

## Main definitions

- `Viewer.step`: the steps of a bridge
- `Sharing`, `sharingStep`, `sharingSystem`: the store, the clock, the bridges, and what has
  happened
- `Cleared`: the checks of a send, and what had not happened before them

## Main results

- `sharingInv_of_reachable`: in every run, the grants that have ended have told their viewers, and
  every frame stands behind the checks of its send
-/

namespace Webshell.Share

open Transition History

inductive Frame
  | hello
  | replay
  | output
  | redraw
deriving DecidableEq

/-- Where a send stands. -/
inductive Stage
  | expiry
  | revocation
  | writing (handed : Bool)
deriving DecidableEq

/-- Where a bridge stands. In a send, the frames that come after it, and whether the bridge closes
then because its receiver lagged. -/
inductive Pc
  | leased
  | sending (frame : Frame) (stage : Stage) (todo : List Frame) (lagged : Bool)
  | selecting
  | closing
  | returned
deriving DecidableEq

structure Viewer where
  lease : Lease
  pc : Pc

inductive Event
  | tick (now : ℕ)
  /-- A grant has left the map. -/
  | ended (grant : ℕ)
  | expiryChecked (viewer : ℕ)
  | revocationChecked (viewer : ℕ)
  | handed (viewer : ℕ) (frame : Frame)
  /-- A Close has been handed to the sink. -/
  | closed (viewer : ℕ)
  /-- A send was refused or failed. -/
  | stopped (viewer : ℕ)
deriving DecidableEq

structure Sharing where
  store : ShareStore
  /-- In nanoseconds. -/
  clock : ℕ
  viewers : ℕ → Option Viewer
  nextViewer : ℕ
  history : List Event

/-- The arms of the bridge's `select!`. -/
inductive Arm
  | expiry
  | revocation
  | audit
  | redraw (pending : ℕ) (lagged : Bool)
  | shutdown
  | output
  | outputLagged
  | outputClosed
  | clientGone
  | clientFrame

inductive Act
  | tick (later : ℕ)
  | create (before : ℕ) (username : String) (index ttl : ℕ)
  | lease (token : Token) (before : ℕ)
  | list (username : String)
  | dropClone (grant : ℕ)
  | resolve (token : Token)
  | sweep
  | revoke (username : String) (id : ℕ)
  | start (viewer : ℕ)
  /-- The socket is not opened after all. -/
  | refuse (viewer : ℕ)
  | checkExpiry (viewer : ℕ)
  | checkRevoked (viewer : ℕ)
  | hand (viewer : ℕ)
  | written (viewer : ℕ)
  | fail (viewer : ℕ)
  | select (viewer : ℕ) (arm : Arm)
  /-- The Close is not taken in time. -/
  | leave (viewer : ℕ)

/-! ## The bridge -/

/-- The next frame to send; after the last, the `select!`, or the end if the receiver lagged. -/
def advance : List Frame → Bool → Pc
  | [], true => .closing
  | [], false => .selecting
  | frame :: todo, lagged => .sending frame .expiry todo lagged

/-- What an arm leads to; the revocation arm needs a revoked lease, the others may fire at any
time. -/
def Arm.next (s : Sharing) (l : Lease) : Arm → Option Pc
  | .expiry => some .closing
  | .revocation => if l.revoked s.store then some .closing else none
  | .audit => some (if l.valid s.store s.clock then .selecting else .closing)
  | .redraw pending lagged =>
    some (advance (List.replicate pending .output ++ if lagged then [] else [.redraw]) lagged)
  | .shutdown => some .closing
  | .output => some (advance [.output] false)
  | .outputLagged => some .closing
  | .outputClosed => some .returned
  | .clientGone => some .returned
  | .clientFrame => some .selecting

/-- A step of a bridge: where it goes on, and what happens. -/
def Viewer.step (s : Sharing) (v : ℕ) (viewer : Viewer) : Act → Option (Pc × List Event)
  | .start _ =>
    match viewer.pc with
    | .leased => some (advance [.hello, .replay] false, [])
    | _ => none
  | .refuse _ =>
    match viewer.pc with
    | .leased => some (.returned, [])
    | _ => none
  | .checkExpiry _ =>
    match viewer.pc with
    | .sending frame .expiry todo lagged =>
      if viewer.lease.expired s.clock then some (.closing, [.stopped v])
      else some (.sending frame .revocation todo lagged, [.expiryChecked v])
    | _ => none
  | .checkRevoked _ =>
    match viewer.pc with
    | .sending frame .revocation todo lagged =>
      if viewer.lease.revoked s.store then some (.closing, [.stopped v])
      else some (.sending frame (.writing false) todo lagged, [.revocationChecked v])
    | _ => none
  | .hand _ =>
    match viewer.pc with
    | .sending frame (.writing false) todo lagged =>
      some (.sending frame (.writing true) todo lagged, [.handed v frame])
    | .closing => some (.returned, [.closed v])
    | _ => none
  | .written _ =>
    match viewer.pc with
    | .sending _ (.writing true) todo lagged => some (advance todo lagged, [])
    | _ => none
  | .fail _ =>
    match viewer.pc with
    | .sending _ (.writing _) _ _ => some (.returned, [.stopped v])
    | _ => none
  | .select _ arm =>
    match viewer.pc with
    | .selecting => (arm.next s viewer.lease).map fun pc => (pc, [])
    | _ => none
  | .leave _ =>
    match viewer.pc with
    | .closing => some (.returned, [])
    | _ => none
  | _ => none

/-! ## The system -/

namespace Sharing

/-- The store after an operation; the grants that it has lost have ended. -/
def withStore (s : Sharing) (store : ShareStore) : Sharing :=
  { s with
    store := store
    history := s.history ++
      (s.store.grants.filter fun g => g ∉ store.grants).map fun g => .ended g.id }

/-- A viewer goes on, and what happened is recorded. -/
def setPc (s : Sharing) (v : ℕ) (viewer : Viewer) (pc : Pc) (events : List Event) : Sharing :=
  { s with
    viewers := Function.update s.viewers v (some { viewer with pc := pc })
    history := s.history ++ events }

/-- A step of a viewer; when its bridge returns, its lease is dropped. -/
def stepViewer (s : Sharing) (v : ℕ) (a : Act) : Option Sharing := do
  let viewer ← s.viewers v
  let (pc, events) ← viewer.step s v a
  let s := s.setPc v viewer pc events
  some (if pc = .returned then { s with store := s.store.dropLease viewer.lease.grant v } else s)

end Sharing

def sharingStep (s : Sharing) : Act → Option Sharing
  | .tick later =>
    some { s with clock := s.clock + later, history := s.history ++ [.tick (s.clock + later)] }
  | .create before username index ttl =>
    if before ≤ nowUnix s.clock then
      some (s.withStore (s.store.create before (nowUnix s.clock) username index ttl).2)
    else none
  | .lease token before =>
    if before ≤ nowUnix s.clock then
      match s.store.lease token before s.nextViewer with
      | .error _ => some s
      | .ok (lease, store) =>
        some { s with
          store := store
          viewers := Function.update s.viewers s.nextViewer (some ⟨lease, .leased⟩)
          nextViewer := s.nextViewer + 1 }
    else none
  | .list username => some (s.withStore (s.store.list username (nowUnix s.clock)).2)
  | .dropClone grant => some (s.withStore (s.store.dropClone grant))
  | .resolve token => some (s.withStore (s.store.resolve token (nowUnix s.clock)).2)
  | .sweep => some (s.withStore (s.store.sweep (nowUnix s.clock)).1)
  | .revoke username id => some (s.withStore (s.store.revoke username id).2)
  | .start v => s.stepViewer v (.start v)
  | .refuse v => s.stepViewer v (.refuse v)
  | .checkExpiry v => s.stepViewer v (.checkExpiry v)
  | .checkRevoked v => s.stepViewer v (.checkRevoked v)
  | .hand v => s.stepViewer v (.hand v)
  | .written v => s.stepViewer v (.written v)
  | .fail v => s.stepViewer v (.fail v)
  | .select v arm => s.stepViewer v (.select v arm)
  | .leave v => s.stepViewer v (.leave v)

def emptySharing (clock : ℕ) : Sharing where
  store := .empty
  clock := clock
  viewers _ := none
  nextViewer := 0
  history := [.tick clock]

def sharingSystem : System Sharing Act where
  init s := ∃ clock, s = emptySharing clock
  step := sharingStep

/-! ## The checks of a send -/

/-- The viewer whose bridge made it happen. -/
def Event.viewer : Event → Option ℕ
  | .tick _ => none
  | .ended _ => none
  | .expiryChecked v => some v
  | .revocationChecked v => some v
  | .handed v _ => some v
  | .closed v => some v
  | .stopped v => some v

/-- The bridge of the viewer did nothing. -/
def Quiet (v : ℕ) (events : List Event) : Prop := ∀ e ∈ events, e.viewer ≠ some v

/-- The last thing the viewer did was the first check of a send, before the lease's expiry. -/
def ExpiryChecked (l : Lease) (v : ℕ) (history : List Event) : Prop :=
  ∃ pre mid, history = pre ++ .expiryChecked v :: mid ∧ Quiet v mid ∧
    ∀ now, .tick now ∈ pre → now < l.expiresAtTime

/-- The last things the viewer did were the two checks of a send: the first before the lease's
expiry, the second before the end of its grant. -/
def Cleared (l : Lease) (v : ℕ) (history : List Event) : Prop :=
  ∃ pre mid post, history = pre ++ .expiryChecked v :: (mid ++ .revocationChecked v :: post) ∧
    Quiet v mid ∧ Quiet v post ∧ (∀ now, .tick now ∈ pre → now < l.expiresAtTime) ∧
    .ended l.grant ∉ pre ++ .expiryChecked v :: mid

/-! ## Steps of a bridge -/

/-- What a step of a bridge may be. -/
inductive Viewer.Steps (s : Sharing) (v : ℕ) (viewer : Viewer) : Pc → List Event → Prop
  | passExpiry (frame : Frame) (todo : List Frame) (lagged : Bool) :
      viewer.pc = .sending frame .expiry todo lagged → viewer.lease.expired s.clock = false →
      Viewer.Steps s v viewer (.sending frame .revocation todo lagged) [.expiryChecked v]
  | passRevoked (frame : Frame) (todo : List Frame) (lagged : Bool) :
      viewer.pc = .sending frame .revocation todo lagged → viewer.lease.revoked s.store = false →
      Viewer.Steps s v viewer (.sending frame (.writing false) todo lagged) [.revocationChecked v]
  | hand (frame : Frame) (todo : List Frame) (lagged : Bool) :
      viewer.pc = .sending frame (.writing false) todo lagged →
      Viewer.Steps s v viewer (.sending frame (.writing true) todo lagged) [.handed v frame]
  | stop (frame : Frame) (stage : Stage) (todo : List Frame) (lagged : Bool) (pc : Pc) :
      viewer.pc = .sending frame stage todo lagged → pc = .closing ∨ pc = .returned →
      Viewer.Steps s v viewer pc [.stopped v]
  | close : viewer.pc = .closing → Viewer.Steps s v viewer .returned [.closed v]
  | leave : viewer.pc = .closing → Viewer.Steps s v viewer .returned []
  | go (pc : Pc) : viewer.pc ≠ .closing → viewer.pc ≠ .returned →
      (∃ todo lagged, pc = advance todo lagged) ∨ pc = .selecting ∨ pc = .closing ∨
        pc = .returned → Viewer.Steps s v viewer pc []

theorem Viewer.steps_of_step {s : Sharing} {v : ℕ} {viewer : Viewer} {a : Act} {pc : Pc}
    {events : List Event} (h : viewer.step s v a = some (pc, events)) :
    Viewer.Steps s v viewer pc events := by
  cases a with
  | start _ =>
    simp only [Viewer.step] at h
    split at h <;> cases h
    next hpc => exact .go _ (by simp [hpc]) (by simp [hpc]) (.inl ⟨_, _, rfl⟩)
  | refuse _ =>
    simp only [Viewer.step] at h
    split at h <;> cases h
    next hpc => exact .go _ (by simp [hpc]) (by simp [hpc]) (.inr (.inr (.inr rfl)))
  | checkExpiry _ =>
    simp only [Viewer.step] at h
    split at h
    · next frame todo lagged hpc =>
      split at h <;> cases h
      · exact .stop frame .expiry todo lagged _ hpc (.inl rfl)
      · next hno => exact .passExpiry frame todo lagged hpc (Bool.eq_false_iff.mpr hno)
    · cases h
  | checkRevoked _ =>
    simp only [Viewer.step] at h
    split at h
    · next frame todo lagged hpc =>
      split at h <;> cases h
      · exact .stop frame .revocation todo lagged _ hpc (.inl rfl)
      · next hno => exact .passRevoked frame todo lagged hpc (Bool.eq_false_iff.mpr hno)
    · cases h
  | hand _ =>
    simp only [Viewer.step] at h
    split at h <;> cases h
    · next frame todo lagged hpc => exact .hand frame todo lagged hpc
    · next hpc => exact .close hpc
  | written _ =>
    simp only [Viewer.step] at h
    split at h <;> cases h
    next hpc => exact .go _ (by simp [hpc]) (by simp [hpc]) (.inl ⟨_, _, rfl⟩)
  | fail _ =>
    simp only [Viewer.step] at h
    split at h <;> cases h
    next frame handed todo lagged hpc =>
      exact .stop frame (.writing handed) todo lagged _ hpc (.inr rfl)
  | select _ arm =>
    simp only [Viewer.step] at h
    split at h
    · next hpc =>
      obtain ⟨_, hnext, heq⟩ := Option.map_eq_some_iff.mp h
      cases heq
      refine .go pc (by simp [hpc]) (by simp [hpc]) ?_
      cases arm with
      | redraw pending lagged => exact .inl ⟨_, _, (Option.some.inj hnext).symm⟩
      | output => exact .inl ⟨_, _, (Option.some.inj hnext).symm⟩
      | revocation =>
        simp only [Arm.next, Option.ite_none_right_eq_some, Option.some.injEq] at hnext
        exact .inr (.inr (.inl hnext.2.symm))
      | audit =>
        simp only [Arm.next, Option.some.injEq] at hnext
        split at hnext
        · exact .inr (.inl hnext.symm)
        · exact .inr (.inr (.inl hnext.symm))
      | clientFrame => exact .inr (.inl (Option.some.inj hnext).symm)
      | expiry => exact .inr (.inr (.inl (Option.some.inj hnext).symm))
      | shutdown => exact .inr (.inr (.inl (Option.some.inj hnext).symm))
      | outputLagged => exact .inr (.inr (.inl (Option.some.inj hnext).symm))
      | outputClosed => exact .inr (.inr (.inr (Option.some.inj hnext).symm))
      | clientGone => exact .inr (.inr (.inr (Option.some.inj hnext).symm))
    · cases h
  | leave _ =>
    simp only [Viewer.step] at h
    split at h <;> cases h
    next hpc => exact .leave hpc
  | _ => cases h

/-! ## The invariant -/

section
variable {l : Lease} {v : ℕ} {history events : List Event}

theorem Quiet.append {a b : List Event} (ha : Quiet v a) (hb : Quiet v b) : Quiet v (a ++ b) :=
  fun e he => (List.mem_append.mp he).elim (ha e) (hb e)

theorem ExpiryChecked.append (h : ExpiryChecked l v history) (hq : Quiet v events) :
    ExpiryChecked l v (history ++ events) := by
  obtain ⟨pre, mid, rfl, hmid, htick⟩ := h
  exact ⟨pre, mid ++ events, by simp, hmid.append hq, htick⟩

theorem Cleared.append (h : Cleared l v history) (hq : Quiet v events) :
    Cleared l v (history ++ events) := by
  obtain ⟨pre, mid, post, rfl, hmid, hpost, htick, hended⟩ := h
  exact ⟨pre, mid, post ++ events, by simp, hmid, hpost.append hq, htick, hended⟩

end

/-- What the stage of a send says about what has happened. -/
def Pc.Checked (l : Lease) (v : ℕ) (history : List Event) : Pc → Prop
  | .sending _ .revocation _ _ => ExpiryChecked l v history
  | .sending _ (.writing false) _ _ => Cleared l v history
  | _ => True

theorem Pc.Checked.append {l : Lease} {v : ℕ} {history events : List Event} {pc : Pc}
    (h : pc.Checked l v history) (hq : Quiet v events) : pc.Checked l v (history ++ events) := by
  cases pc with
  | sending frame stage todo lagged =>
    cases stage with
    | expiry => trivial
    | revocation => exact ExpiryChecked.append h hq
    | writing handed =>
      cases handed with
      | false => exact Cleared.append h hq
      | true => trivial
  | _ => trivial

/-- Where a frame and a Close may stand in the history. -/
def Allowed (s : Sharing) (before : List Event) : Event → Prop
  | .handed v _ => (∃ viewer, s.viewers v = some viewer ∧ Cleared viewer.lease v before) ∧
    .stopped v ∉ before ∧ .closed v ∉ before
  | .closed v => .closed v ∉ before
  | _ => True

structure SharingInv (s : Sharing) : Prop where
  clock : ∀ now, .tick now ∈ s.history → now ≤ s.clock
  ended : ∀ id, .ended id ∈ s.history → id < s.store.nextId ∧ s.store.get id = none
  leased : ∀ v viewer, s.viewers v = some viewer → viewer.lease.grant < s.store.nextId
  subscribed : ∀ v viewer, s.viewers v = some viewer → viewer.pc ≠ .returned →
    v ∈ (s.store.signals viewer.lease.grant).revoked.receivers
  told : ∀ v viewer, s.viewers v = some viewer → viewer.pc ≠ .returned →
    .ended viewer.lease.grant ∈ s.history →
    (s.store.signals viewer.lease.grant).revoked.value = true
  unnumbered : ∀ v, s.nextViewer ≤ v → s.viewers v = none ∧ Quiet v s.history
  checked : ∀ v viewer, s.viewers v = some viewer → viewer.pc.Checked viewer.lease v s.history
  stopped : ∀ v viewer, s.viewers v = some viewer → .stopped v ∈ s.history →
    viewer.pc = .closing ∨ viewer.pc = .returned
  closed : ∀ v viewer, s.viewers v = some viewer → .closed v ∈ s.history → viewer.pc = .returned
  allowed : Each (Allowed s) s.history

variable {s s' : Sharing}

/-- What is allowed does not depend on where the bridges stand. -/
theorem Allowed.congr {before : List Event} {e : Event} (h : Allowed s before e)
    (hleases : ∀ v viewer, s.viewers v = some viewer →
      ∃ viewer', s'.viewers v = some viewer' ∧ viewer'.lease = viewer.lease) :
    Allowed s' before e := by
  cases e with
  | handed v frame =>
    obtain ⟨⟨viewer, hv, hcleared⟩, hrest⟩ := h
    obtain ⟨viewer', hv', hlease⟩ := hleases v viewer hv
    exact ⟨⟨viewer', hv', hlease ▸ hcleared⟩, hrest⟩
  | closed v => exact h
  | _ => trivial

/-- An event of no bridge is allowed everywhere. -/
theorem allowed_of_viewer_eq_none {e : Event} (he : e.viewer = none) (before : List Event) :
    Allowed s before e := by
  cases e with
  | tick now => trivial
  | ended grant => trivial
  | _ => cases he

theorem quiet_of_viewer_eq_none {events : List Event} (h : ∀ e ∈ events, e.viewer = none)
    (v : ℕ) : Quiet v events := by
  intro e he heq
  rw [h e he] at heq
  cases heq

theorem sharingInv_empty (clock : ℕ) : SharingInv (emptySharing clock) := by
  refine ⟨fun now hnow => ?_, fun id hid => ?_, nofun, nofun, nofun, fun v _ => ⟨rfl, ?_⟩, nofun,
    nofun, nofun, ?_⟩
  · obtain rfl : now = clock := by simpa [emptySharing] using hnow
    exact le_rfl
  · simp [emptySharing] at hid
  · exact quiet_of_viewer_eq_none (by simp [emptySharing, Event.viewer]) v
  · exact each_nil.snoc trivial

/-- The clock goes on. -/
theorem SharingInv.tick (h : SharingInv s) (later : ℕ) :
    SharingInv { s with
      clock := s.clock + later
      history := s.history ++ [.tick (s.clock + later)] } := by
  have hnew : ∀ e ∈ [Event.tick (s.clock + later)], e.viewer = none := by simp [Event.viewer]
  refine ⟨fun now hnow => ?_, fun id hid => h.ended id (by simpa using hid), h.leased, h.subscribed,
    fun v viewer hv hpc hended => h.told v viewer hv hpc (by simpa using hended),
    fun v hv => ⟨(h.unnumbered v hv).1,
      (h.unnumbered v hv).2.append (quiet_of_viewer_eq_none hnew v)⟩,
    fun v viewer hv => (h.checked v viewer hv).append (quiet_of_viewer_eq_none hnew v),
    fun v viewer hv hmem => h.stopped v viewer hv (by simpa using hmem),
    fun v viewer hv hmem => h.closed v viewer hv (by simpa using hmem), ?_⟩
  · obtain hnow | hnow := List.mem_append.mp hnow
    · exact (h.clock now hnow).trans (Nat.le_add_right _ _)
    · obtain rfl : now = s.clock + later := by simpa using hnow
      exact le_rfl
  · exact h.allowed.append fun e he before => allowed_of_viewer_eq_none (hnew e he) before

/-- A store operation ends the grants that leave the map. -/
theorem SharingInv.withStore (h : SharingInv s) {store : ShareStore} (hop : StoreOp s.store store) :
    SharingInv (s.withStore store) := by
  have hnew : ∀ e ∈ (s.store.grants.filter fun g => g ∉ store.grants).map fun g =>
      Event.ended g.id, e.viewer = none := by
    intro e he
    obtain ⟨g, _, rfl⟩ := List.mem_map.mp he
    rfl
  -- a grant that has just ended was in the map and is in it no more
  have hends : ∀ id, .ended id ∈ (s.withStore store).history → .ended id ∈ s.history ∨
      ∃ g ∈ s.store.grants, g ∉ store.grants ∧ g.id = id := by
    intro id hid
    obtain hid | hid := List.mem_append.mp hid
    · exact .inl hid
    · obtain ⟨g, hg, heq⟩ := List.mem_map.mp hid
      obtain ⟨hmem, hno⟩ := List.mem_filter.mp hg
      exact .inr ⟨g, hmem, by simpa using hno, Event.ended.inj heq⟩
  have hold : ∀ {e : Event}, e.viewer ≠ none → e ∈ (s.withStore store).history → e ∈ s.history := by
    intro e hne he
    obtain he | he := List.mem_append.mp he
    · exact he
    · exact absurd (hnew e he) hne
  refine ⟨fun now hnow => ?_, fun id hid => ?_, fun v viewer hv => ?_, fun v viewer hv hpc => ?_,
    fun v viewer hv hpc hended => ?_, fun v hv => ?_, fun v viewer hv => ?_,
    fun v viewer hv hmem => h.stopped v viewer hv (hold nofun hmem),
    fun v viewer hv hmem => h.closed v viewer hv (hold nofun hmem), ?_⟩
  · obtain hnow | hnow := List.mem_append.mp hnow
    · exact h.clock now hnow
    · obtain ⟨g, _, heq⟩ := List.mem_map.mp hnow
      cases heq
  · obtain hid | ⟨g, hg, hno, rfl⟩ := hends id hid
    · obtain ⟨hlt, hget⟩ := h.ended id hid
      exact ⟨hlt.trans_le hop.nextId, hop.get_eq_none hlt hget⟩
    · have hlt := s.store.numbered g hg
      refine ⟨hlt.trans_le hop.nextId, get_eq_none_iff.mpr fun g' hg' heq => ?_⟩
      obtain hold' | hfresh := hop.grants g' hg'
      · exact hno (eq_of_id_eq hold' hg heq ▸ hg')
      · change s.store.nextId ≤ g'.id at hfresh
        omega
  · exact (h.leased v viewer hv).trans_le hop.nextId
  · change v ∈ (store.signals _).revoked.receivers
    rw [hop.receivers _ (h.leased v viewer hv)]
    exact h.subscribed v viewer hv hpc
  · have hlt := h.leased v viewer hv
    obtain hid | ⟨g, hg, hno, hid⟩ := hends _ hended
    · exact hop.value _ hlt (h.told v viewer hv hpc hid)
    · have hmem := h.subscribed v viewer hv hpc
      rw [← hid] at hmem
      have htold := hop.told g hg hno v hmem
      rwa [hid] at htold
  · exact ⟨(h.unnumbered v hv).1,
      (h.unnumbered v hv).2.append (quiet_of_viewer_eq_none hnew v)⟩
  · exact (h.checked v viewer hv).append (quiet_of_viewer_eq_none hnew v)
  · exact (h.allowed.append fun e he before => allowed_of_viewer_eq_none (hnew e he) before)

/-- What a lease leaves of the store, and the receiver it takes. -/
theorem lease_eq_ok {store store' : ShareStore} {token : Token} {now v : ℕ} {l : Lease}
    (h : store.lease token now v = .ok (l, store')) :
    store.get l.grant ≠ none ∧ store'.grants = store.grants ∧ store'.nextId = store.nextId ∧
      (∀ id, (store'.signals id).revoked.value = (store.signals id).revoked.value ∧
        (store'.signals id).clones = (store.signals id).clones ∧
        (store.signals id).revoked.receivers ⊆ (store'.signals id).revoked.receivers) ∧
      v ∈ (store'.signals l.grant).revoked.receivers := by
  simp only [ShareStore.lease] at h
  split at h
  · cases h
  · split at h
    · cases h
    · next g hget =>
      split at h
      · cases h
      · split at h
        · cases h
        · cases h
          refine ⟨by simp [hget], rfl, rfl, fun id => ?_, ?_⟩
          · by_cases hid : id = token.id
            · subst hid
              simp [ShareStore.setSignal, Watch.Channel.subscribe]
            · simp [ShareStore.setSignal, hid]
          · simp [ShareStore.setSignal, Watch.Channel.subscribe]

theorem SharingInv.lease (h : SharingInv s) {token : Token} {now : ℕ} {l : Lease}
    {store : ShareStore} (hlease : s.store.lease token now s.nextViewer = .ok (l, store)) :
    SharingInv { s with
      store := store
      viewers := Function.update s.viewers s.nextViewer (some ⟨l, .leased⟩)
      nextViewer := s.nextViewer + 1 } := by
  obtain ⟨hget, hgrants, hnext, hsignals, hmem⟩ := lease_eq_ok hlease
  have hstore : ∀ id, store.get id = s.store.get id := fun id => by
    rw [ShareStore.get, hgrants, ShareStore.get]
  obtain ⟨hnone, hquiet⟩ := h.unnumbered s.nextViewer le_rfl
  have hlt : l.grant < s.store.nextId := by
    obtain ⟨g, hg⟩ := Option.ne_none_iff_exists'.mp hget
    obtain ⟨hmem', hid⟩ := get_eq_some hg
    exact hid ▸ s.store.numbered g hmem'
  -- a viewer is the new one or was there before
  have hcases : ∀ v viewer,
      Function.update s.viewers s.nextViewer (some ⟨l, .leased⟩) v = some viewer →
      (v = s.nextViewer ∧ viewer = ⟨l, .leased⟩) ∨ s.viewers v = some viewer := by
    intro v viewer hv
    by_cases hvn : v = s.nextViewer
    · subst hvn
      exact .inl ⟨rfl, by simpa using hv.symm⟩
    · exact .inr (by simpa [hvn] using hv)
  refine ⟨h.clock, fun id hid => ?_, fun v viewer hv => ?_, fun v viewer hv hpc => ?_,
    fun v viewer hv hpc hended => ?_, fun v hv => ?_, fun v viewer hv => ?_,
    fun v viewer hv hstop => ?_, fun v viewer hv hclosed => ?_, ?_⟩
  · rw [hnext, hstore]
    exact h.ended id hid
  · rw [hnext]
    obtain ⟨_, rfl⟩ | hv := hcases v viewer hv
    · exact hlt
    · exact h.leased v viewer hv
  · obtain ⟨rfl, rfl⟩ | hv := hcases v viewer hv
    · exact hmem
    · exact (hsignals _).2.2 (h.subscribed v viewer hv hpc)
  · rw [(hsignals _).1]
    obtain ⟨rfl, rfl⟩ | hv := hcases v viewer hv
    · exact absurd (h.ended l.grant hended).2 hget
    · exact h.told v viewer hv hpc hended
  · obtain ⟨hvnone, hvquiet⟩ := h.unnumbered v (Nat.le_of_succ_le hv)
    exact ⟨by simp [Nat.ne_of_gt hv, hvnone], hvquiet⟩
  · obtain ⟨rfl, rfl⟩ | hv := hcases v viewer hv
    · trivial
    · exact h.checked v viewer hv
  · obtain ⟨rfl, rfl⟩ | hv := hcases v viewer hv
    · exact absurd rfl (hquiet _ hstop)
    · exact h.stopped v viewer hv hstop
  · obtain ⟨rfl, rfl⟩ | hv := hcases v viewer hv
    · exact absurd rfl (hquiet _ hclosed)
    · exact h.closed v viewer hv hclosed
  · refine h.allowed.mono fun before e he => he.congr fun v viewer hv => ⟨viewer, ?_, rfl⟩
    have hne : v ≠ s.nextViewer := by
      rintro rfl
      rw [hnone] at hv
      cases hv
    exact (Function.update_of_ne hne ..).trans hv

/-- The end of a lease concerns only its viewer. -/
theorem SharingInv.dropLease (h : SharingInv s) {v : ℕ} {viewer : Viewer}
    (hv : s.viewers v = some viewer) (hpc : viewer.pc = .returned) :
    SharingInv { s with store := s.store.dropLease viewer.lease.grant v } := by
  have hsignals : ∀ id,
      ((s.store.dropLease viewer.lease.grant v).signals id).revoked.value =
        (s.store.signals id).revoked.value ∧
      ∀ u, u ≠ v → u ∈ (s.store.signals id).revoked.receivers →
        u ∈ ((s.store.dropLease viewer.lease.grant v).signals id).revoked.receivers := by
    intro id
    by_cases hid : id = viewer.lease.grant
    · subst hid
      simp only [ShareStore.dropLease, ShareStore.setSignal, Function.update_self]
      exact ⟨rfl, fun u hu hmem => Finset.mem_erase.mpr ⟨hu, hmem⟩⟩
    · simp only [ShareStore.dropLease, ShareStore.setSignal, Function.update_of_ne hid]
      exact ⟨trivial, fun u _ hmem => hmem⟩
  refine ⟨h.clock, h.ended, h.leased, fun u other hu hne => ?_, fun u other hu hne hended => ?_,
    h.unnumbered, h.checked, h.stopped, h.closed, h.allowed⟩
  · have huv : u ≠ v := by
      rintro rfl
      obtain rfl := Option.some.inj (hv.symm.trans hu)
      exact hne hpc
    exact (hsignals _).2 u huv (h.subscribed u other hu hne)
  · exact (hsignals _).1.trans (h.told u other hu hne hended)

/-- A bridge goes on. What it does is its own, and what it has handed over is allowed. -/
theorem SharingInv.setPc (h : SharingInv s) {v : ℕ} {viewer : Viewer}
    (hv : s.viewers v = some viewer) (hlive : viewer.pc ≠ .returned) {pc : Pc}
    {events : List Event} (hown : ∀ e ∈ events, e.viewer = some v)
    (hchecked : pc.Checked viewer.lease v (s.history ++ events))
    (hstopped : .stopped v ∈ s.history ++ events → pc = .closing ∨ pc = .returned)
    (hclosed : .closed v ∈ s.history ++ events → pc = .returned)
    (hallowed : Each (Allowed s) (s.history ++ events)) :
    SharingInv (s.setPc v viewer pc events) := by
  have hold : ∀ {e : Event}, e.viewer ≠ some v → e ∈ s.history ++ events → e ∈ s.history := by
    intro e hne he
    obtain he | he := List.mem_append.mp he
    · exact he
    · exact absurd (hown e he) hne
  have hquiet : ∀ u, u ≠ v → Quiet u events := fun u hu e he heq =>
    hu (Option.some.inj (heq.symm.trans (hown e he)))
  have hcases : ∀ u other, (s.setPc v viewer pc events).viewers u = some other →
      (u = v ∧ other = { viewer with pc := pc }) ∨ (u ≠ v ∧ s.viewers u = some other) := by
    intro u other hu
    by_cases huv : u = v
    · subst huv
      exact .inl ⟨rfl, by simpa [Sharing.setPc] using hu.symm⟩
    · exact .inr ⟨huv, by simpa [Sharing.setPc, huv] using hu⟩
  refine ⟨fun now hnow => h.clock now (hold (e := .tick now) nofun hnow),
    fun id hid => h.ended id (hold (e := .ended id) nofun hid),
    fun u other hu => ?_, fun u other hu hne => ?_, fun u other hu hne hended => ?_,
    fun u hu => ?_, fun u other hu => ?_, fun u other hu hmem => ?_, fun u other hu hmem => ?_, ?_⟩
  · obtain ⟨rfl, rfl⟩ | ⟨_, hu⟩ := hcases u other hu
    · exact h.leased u viewer hv
    · exact h.leased u other hu
  · obtain ⟨rfl, rfl⟩ | ⟨_, hu⟩ := hcases u other hu
    · exact h.subscribed u viewer hv hlive
    · exact h.subscribed u other hu hne
  · have hended' := hold (e := .ended other.lease.grant) nofun hended
    obtain ⟨rfl, rfl⟩ | ⟨_, hu⟩ := hcases u other hu
    · exact h.told u viewer hv hlive hended'
    · exact h.told u other hu hne hended'
  · obtain ⟨hnone, hq⟩ := h.unnumbered u hu
    have huv : u ≠ v := by
      rintro rfl
      rw [hnone] at hv
      cases hv
    exact ⟨(Function.update_of_ne huv ..).trans hnone, hq.append (hquiet u huv)⟩
  · obtain ⟨rfl, rfl⟩ | ⟨huv, hu⟩ := hcases u other hu
    · exact hchecked
    · exact (h.checked u other hu).append (hquiet u huv)
  · obtain ⟨rfl, rfl⟩ | ⟨huv, hu⟩ := hcases u other hu
    · exact hstopped hmem
    · exact h.stopped u other hu (hold (fun heq => huv (Option.some.inj heq)) hmem)
  · obtain ⟨rfl, rfl⟩ | ⟨huv, hu⟩ := hcases u other hu
    · exact hclosed hmem
    · exact h.closed u other hu (hold (fun heq => huv (Option.some.inj heq)) hmem)
  · refine hallowed.mono fun before e he => he.congr fun u other hu => ?_
    by_cases huv : u = v
    · subst huv
      obtain rfl := Option.some.inj (hv.symm.trans hu)
      exact ⟨_, Function.update_self .., rfl⟩
    · exact ⟨other, (Function.update_of_ne huv ..).trans hu, rfl⟩

theorem checked_advance (l : Lease) (v : ℕ) (history : List Event) (todo : List Frame)
    (lagged : Bool) : (advance todo lagged).Checked l v history := by
  cases todo with
  | nil => cases lagged <;> trivial
  | cons frame todo => trivial

/-- In a send nothing has stopped the bridge before. -/
theorem SharingInv.not_stopped (h : SharingInv s) {v : ℕ} {viewer : Viewer}
    (hv : s.viewers v = some viewer) (hclosing : viewer.pc ≠ .closing)
    (hreturned : viewer.pc ≠ .returned) : .stopped v ∉ s.history ∧ .closed v ∉ s.history :=
  ⟨fun hmem => (h.stopped v viewer hv hmem).elim hclosing hreturned,
    fun hmem => hreturned (h.closed v viewer hv hmem)⟩

theorem SharingInv.steps (h : SharingInv s) {v : ℕ} {viewer : Viewer}
    (hv : s.viewers v = some viewer) {pc : Pc} {events : List Event}
    (hsteps : Viewer.Steps s v viewer pc events) : SharingInv (s.setPc v viewer pc events) := by
  cases hsteps with
  | passExpiry frame todo lagged hpc hexpired =>
    obtain ⟨hstopped, hclosed⟩ := h.not_stopped hv (by simp [hpc]) (by simp [hpc])
    refine h.setPc hv (by simp [hpc]) (by simp [Event.viewer])
      ⟨s.history, [], rfl, List.forall_mem_nil _, fun now hnow => ?_⟩ (fun hmem => ?_)
      (fun hmem => ?_) (h.allowed.snoc trivial)
    · have hle := h.clock now hnow
      have hlt : ¬ viewer.lease.expiresAtTime ≤ s.clock := by simpa [Lease.expired] using hexpired
      omega
    · exact absurd (by simpa using hmem) hstopped
    · exact absurd (by simpa using hmem) hclosed
  | passRevoked frame todo lagged hpc hrevoked =>
    obtain ⟨hstopped, hclosed⟩ := h.not_stopped hv (by simp [hpc]) (by simp [hpc])
    have hchecked := h.checked v viewer hv
    rw [hpc] at hchecked
    obtain ⟨pre, mid, heq, hmid, htick⟩ := hchecked
    have hnotended : .ended viewer.lease.grant ∉ s.history := by
      intro hmem
      have hvalue := h.told v viewer hv (by simp [hpc]) hmem
      simp [Lease.revoked, hvalue] at hrevoked
    refine h.setPc hv (by simp [hpc]) (by simp [Event.viewer])
      ⟨pre, mid, [], by simp [heq], hmid, List.forall_mem_nil _, htick, heq ▸ hnotended⟩
      (fun hmem => ?_) (fun hmem => ?_) (h.allowed.snoc trivial)
    · exact absurd (by simpa using hmem) hstopped
    · exact absurd (by simpa using hmem) hclosed
  | hand frame todo lagged hpc =>
    obtain ⟨hstopped, hclosed⟩ := h.not_stopped hv (by simp [hpc]) (by simp [hpc])
    have hchecked := h.checked v viewer hv
    rw [hpc] at hchecked
    refine h.setPc hv (by simp [hpc]) (by simp [Event.viewer]) trivial (fun hmem => ?_)
      (fun hmem => ?_) (h.allowed.snoc ⟨⟨viewer, hv, hchecked⟩, hstopped, hclosed⟩)
    · exact absurd (by simpa using hmem) hstopped
    · exact absurd (by simpa using hmem) hclosed
  | stop frame stage todo lagged _ hpc hor =>
    obtain ⟨_, hclosed⟩ := h.not_stopped hv (by simp [hpc]) (by simp [hpc])
    refine h.setPc hv (by simp [hpc]) (by simp [Event.viewer]) ?_ (fun _ => hor) (fun hmem => ?_)
      (h.allowed.snoc trivial)
    · obtain rfl | rfl := hor <;> trivial
    · exact absurd (by simpa using hmem) hclosed
  | close hpc =>
    have hclosed : .closed v ∉ s.history := fun hmem => by
      have hreturned := h.closed v viewer hv hmem
      rw [hpc] at hreturned
      cases hreturned
    exact h.setPc hv (by simp [hpc]) (by simp [Event.viewer]) trivial (fun _ => .inr rfl)
      (fun _ => rfl) (h.allowed.snoc hclosed)
  | leave hpc =>
    exact h.setPc hv (by simp [hpc]) (by simp) trivial (fun _ => .inr rfl) (fun _ => rfl)
      (by rw [List.append_nil]; exact h.allowed)
  | go _ hclosing hreturned hor =>
    obtain ⟨hstopped, hclosed⟩ := h.not_stopped hv hclosing hreturned
    refine h.setPc hv hreturned (by simp) ?_ (fun hmem => ?_) (fun hmem => ?_)
      (by rw [List.append_nil]; exact h.allowed)
    · obtain ⟨todo, lagged, rfl⟩ | rfl | rfl | rfl := hor
      · exact checked_advance ..
      · trivial
      · trivial
      · trivial
    · exact absurd (by simpa using hmem) hstopped
    · exact absurd (by simpa using hmem) hclosed

theorem SharingInv.stepViewer (h : SharingInv s) {v : ℕ} {a : Act}
    (hstep : s.stepViewer v a = some s') : SharingInv s' := by
  obtain ⟨viewer, hv, hrest⟩ := Option.bind_eq_some_iff.mp hstep
  obtain ⟨⟨pc, events⟩, hpc, hs'⟩ := Option.bind_eq_some_iff.mp hrest
  obtain rfl := Option.some.inj hs'
  have hinv := h.steps hv (Viewer.steps_of_step hpc)
  split
  · next hreturned =>
    have hself : (s.setPc v viewer pc events).viewers v = some { viewer with pc := pc } :=
      Function.update_self ..
    have hdrop := hinv.dropLease hself hreturned
    exact hdrop
  · exact hinv

theorem SharingInv.step (h : SharingInv s) {a : Act} (hstep : sharingStep s a = some s') :
    SharingInv s' := by
  cases a with
  | tick later => exact Option.some.inj hstep ▸ h.tick later
  | create before username index ttl =>
    simp only [sharingStep, Option.ite_none_right_eq_some, Option.some.injEq] at hstep
    exact hstep.2 ▸ h.withStore (storeOp_create ..)
  | lease token before =>
    simp only [sharingStep, Option.ite_none_right_eq_some] at hstep
    obtain ⟨_, hmatch⟩ := hstep
    split at hmatch
    · exact Option.some.inj hmatch ▸ h
    · next hlease => exact Option.some.inj hmatch ▸ h.lease hlease
  | list username => exact Option.some.inj hstep ▸ h.withStore (storeOp_list ..)
  | dropClone grant => exact Option.some.inj hstep ▸ h.withStore (storeOp_dropClone ..)
  | resolve token => exact Option.some.inj hstep ▸ h.withStore (storeOp_resolve ..)
  | sweep => exact Option.some.inj hstep ▸ h.withStore (storeOp_sweep ..)
  | revoke username id => exact Option.some.inj hstep ▸ h.withStore (storeOp_revoke ..)
  | start v => exact h.stepViewer hstep
  | refuse v => exact h.stepViewer hstep
  | checkExpiry v => exact h.stepViewer hstep
  | checkRevoked v => exact h.stepViewer hstep
  | hand v => exact h.stepViewer hstep
  | written v => exact h.stepViewer hstep
  | fail v => exact h.stepViewer hstep
  | select v arm => exact h.stepViewer hstep
  | leave v => exact h.stepViewer hstep

theorem sharingInv_of_reachable (hs : sharingSystem.Reachable s) : SharingInv s := by
  refine System.Reach.invariant ?_ ?_ hs
  · rintro s ⟨clock, rfl⟩
    exact sharingInv_empty clock
  · intro s a s' _ hinv _ hstep
    exact hinv.step hstep

end Webshell.Share
