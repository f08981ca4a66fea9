import Webshell.Auth.SessionFile
import Webshell.Lib.Watch

/-!
# Revocation of a signed-in browser

Each session has a watch channel. The store and every clone of the session own a sender of it, and
the WebSocket handler gives a receiver, which it subscribes to a while after it has cloned the
session, to the bridge of its connection. A session that leaves the store is sent `true`, which is
lost where no receiver stands; what ends the bridge then is that the last sender is dropped.

## Main definitions

- `Revocations`, `revocationSystem`: the store, the channels of its sessions, and the handlers
- `Revocations.revocationArm`: what the revocation arm of the bridge does

## Main results

- `mem_exec_iff`: every session that leaves the store is sent `true`
- `revocation_arm_breaks`: without the session and its clones, the arm ends the bridge
-/

namespace Webshell

open Transition

/-! ## The store and the sessions that it revokes -/

namespace SessionStore

/-- An operation of the store, where the next token is `token`. -/
def exec (s : SessionStore) (token : ℕ) (now : Clock) (written : Bool) : SessionOp → SessionStore
  | .create => s.create token now
  | .get id => (s.get id now written).2
  | .remove id => s.remove id now written
  | .login oldId username => s.login oldId token username now written
  | .beginMfa oldId username => s.beginMfa oldId token username now written
  | .setOauth id flow => s.setOauth id flow now written
  | .sweep => s.sweep now written
  | .tick _ => s

/-- The sessions that the operation calls `revoke` on. -/
def revokes (s : SessionStore) (now : Clock) : SessionOp → List ℕ
  | .create => s.evicts.toList
  | .get id =>
    if (s.inner.lookup id).any fun x => x.expired s.ttl now.instant then [id] else []
  | .remove id | .login id _ | .beginMfa id _ => if (s.inner.lookup id).isSome then [id] else []
  | .sweep => (s.inner.retain fun _ x => x.expired s.ttl now.instant).entries.map fun e => e.1
  | .setOauth _ _ | .tick _ => []

end SessionStore

/-- The operation opens a session. -/
def SessionOp.opens : SessionOp → Bool
  | .create | .login _ _ | .beginMfa _ _ => true
  | _ => false

variable {store : SessionStore} {token id : ℕ} {now : Clock} {written : Bool} {op : SessionOp}

/-- What is left of the sessions: those that no `revoke` was called on, and the one that is new. -/
theorem mem_exec_iff :
    id ∈ (store.exec token now written op).inner ↔
      (op.opens = true ∧ id = token) ∨ (id ∈ store.inner ∧ id ∉ store.revokes now op) := by
  have hpromote : ∀ oldId authenticated mfaPending username,
      id ∈ (store.promote oldId token authenticated mfaPending username now written).inner ↔
        (true = true ∧ id = token) ∨ (id ∈ store.inner ∧
          id ∉ if (store.inner.lookup oldId).isSome then [oldId] else []) := by
    intro oldId authenticated mfaPending username
    rw [SessionStore.promote, SessionStore.inner_persist]
    show id ∈ AList.insert _ _ _ ↔ _
    rw [AList.mem_insert, AList.mem_erase, eq_self, true_and]
    by_cases hold : oldId ∈ store.inner
    · simp [AList.lookup_isSome.mpr hold, and_comm]
    · have hne : id ∈ store.inner → id ≠ oldId := fun hid heq => hold (heq ▸ hid)
      simp [AList.lookup_isSome, hold]
      tauto
  have hdrop : ∀ id', id ∈ store.inner.erase id' ↔ id ∈ store.inner ∧ id ∉ [id'] := by
    intro id'
    rw [AList.mem_erase, List.mem_singleton, and_comm]
  have hsame : id ∈ store.inner ↔ id ∈ store.inner ∧ id ∉ ([] : List ℕ) := by simp
  cases op with
  | create =>
    rw [← AList.lookup_isSome, SessionStore.exec, lookup_create, SessionStore.revokes]
    by_cases hid : id = token
    · simp [hid, SessionOp.opens]
    · by_cases hevicted : store.evicts = some id
      · simp [hid, hevicted]
      · simp [hid, hevicted, AList.lookup_isSome]
  | get id' =>
    simp only [SessionStore.exec, SessionStore.get, SessionStore.revokes, SessionOp.opens,
      Bool.false_eq_true, false_and, false_or]
    cases hx : store.inner.lookup id' with
    | none => exact hsame
    | some x =>
      simp only [Option.any_some]
      split
      · rw [SessionStore.inner_persist]
        exact hdrop id'
      · exact hsame
  | remove id' =>
    simp only [SessionStore.exec, SessionStore.remove, SessionStore.revokes, SessionOp.opens,
      Bool.false_eq_true, false_and, false_or]
    split
    · rw [SessionStore.inner_persist]
      exact hdrop id'
    · exact hsame
  | login oldId username => exact hpromote oldId true false username
  | beginMfa oldId username => exact hpromote oldId false true username
  | setOauth id' flow =>
    simp only [SessionStore.exec, SessionStore.setOauth, SessionStore.revokes, SessionOp.opens,
      Bool.false_eq_true, false_and, false_or]
    split
    next x hx =>
      have hmem : id' ∈ store.inner := AList.lookup_isSome.mp (hx ▸ rfl)
      rw [SessionStore.inner_persist]
      show id ∈ AList.insert _ _ _ ↔ _
      rw [AList.mem_insert, ← hsame]
      exact ⟨fun hid => hid.elim (fun heq => heq ▸ hmem) fun hid => hid, .inr⟩
    · exact hsame
  | sweep =>
    have hretain : (store.sweep now written).inner =
        store.inner.retain fun _ x => !x.expired store.ttl now.instant := by
      rw [SessionStore.sweep]
      split
      · rw [SessionStore.inner_persist]
      · rfl
    simp only [SessionOp.opens, Bool.false_eq_true, false_and, false_or]
    show id ∈ (store.sweep now written).inner ↔ id ∈ store.inner ∧
      id ∉ (store.inner.retain fun _ x => x.expired store.ttl now.instant).keys
    rw [hretain, ← AList.mem_keys, AList.mem_retain, AList.mem_retain, ← AList.lookup_isSome]
    cases store.inner.lookup id with
    | none => simp
    | some x => simp
  | tick clock => exact hsame.trans (by simp [SessionStore.revokes, SessionOp.opens])

/-! ## Channels and handlers -/

/-- The channel of a session. A sender is named by the handler whose clone has it, or else is the
one in the store. -/
structure RevocationChannel where
  watch : Watch.Channel ℕ Bool
  senders : Finset (Option ℕ)

namespace RevocationChannel

/-- `watch::channel(false)`, whose first receiver is dropped at once. -/
def new : RevocationChannel := ⟨.new false, {none}⟩

/-- A channel that nobody has. -/
def unused : RevocationChannel := ⟨.new false, ∅⟩

/-- The session leaves the store: `true` is sent, and its sender is dropped. -/
def revoke (ch : RevocationChannel) : RevocationChannel :=
  ⟨ch.watch.send true, ch.senders.erase none⟩

end RevocationChannel

/-- A handler that has asked for a session. -/
inductive Handler
  | idle
  /-- It holds a clone. -/
  | cloned (id : ℕ) (x : Session)
  /-- `ws_handler`, from its call of `revocation` on: the receiver is in the closure for the
  upgrade, and the clone is still there. -/
  | upgrading (id : ℕ)
  /-- It has returned, and the bridge has the receiver. -/
  | bridge (id : ℕ)

structure Revocations where
  store : SessionStore
  clock : Clock
  nextToken : ℕ
  channels : ℕ → RevocationChannel
  handlers : ℕ → Handler

inductive RevocationAct
  | store (op : SessionOp) (written : Bool)
  /-- `authed_session`, or another use of `get` that keeps the clone. -/
  | clone (i id : ℕ) (written : Bool)
  /-- `session.revocation()` -/
  | subscribe (i : ℕ)
  /-- The handler returns; its clone is dropped. -/
  | ret (i : ℕ)
  /-- The revocation arm of the bridge. -/
  | arm (i : ℕ)
  /-- The bridge ends for another reason, or there is none as the upgrade fails. -/
  | leave (i : ℕ)

namespace Revocations

def setHandler (s : Revocations) (i : ℕ) (h : Handler) : Revocations :=
  { s with handlers := Function.update s.handlers i h }

def setChannel (s : Revocations) (id : ℕ) (ch : RevocationChannel) : Revocations :=
  { s with channels := Function.update s.channels id ch }

/-- The channels after an operation: one that is new, and those that `revoke` has been called on. -/
def revoked (s : Revocations) (op : SessionOp) (id : ℕ) : RevocationChannel :=
  if op.opens = true ∧ id = s.nextToken then .new
  else if id ∈ s.store.revokes s.clock op then (s.channels id).revoke
  else s.channels id

def exec (s : Revocations) (op : SessionOp) (written : Bool) : Revocations :=
  { s with
    store := s.store.exec s.nextToken s.clock written op
    clock := match op with
      | .tick clock => clock
      | _ => s.clock
    nextToken := if op.opens then s.nextToken + 2 else s.nextToken
    channels := s.revoked op }

/-- `changed.is_err() || *revoked.borrow()`: whether the arm ends the bridge; `none` as long as
`changed` is pending. A change is reported first. -/
def revocationArm (s : Revocations) (i id : ℕ) : Option Bool :=
  if (s.channels id).watch.changed i then some (s.channels id).watch.value
  else if (s.channels id).senders = ∅ then some true
  else none

/-- The receiver of the handler is dropped. -/
def dropReceiver (s : Revocations) (i id : ℕ) : Revocations :=
  (s.setChannel id ⟨(s.channels id).watch.unsubscribe i, (s.channels id).senders⟩).setHandler i
    .idle

def step (s : Revocations) : RevocationAct → Option Revocations
  | .store op written => some (s.exec op written)
  | .clone i id written =>
    match s.handlers i, (s.store.get id s.clock written).1 with
    | .idle, some x =>
      let s' := s.exec (.get id) written
      let ch := s'.channels id
      some ((s'.setChannel id ⟨ch.watch, insert (some i) ch.senders⟩).setHandler i (.cloned id x))
    | .idle, none => some (s.exec (.get id) written)
    | _, _ => none
  | .subscribe i =>
    match s.handlers i with
    | .cloned id x =>
      if x.authenticated then
        let ch := s.channels id
        some ((s.setChannel id ⟨ch.watch.subscribe i, ch.senders⟩).setHandler i (.upgrading id))
      else none
    | _ => none
  | .ret i =>
    match s.handlers i with
    | .cloned id _ =>
      let ch := s.channels id
      some ((s.setChannel id ⟨ch.watch, ch.senders.erase (some i)⟩).setHandler i .idle)
    | .upgrading id =>
      let ch := s.channels id
      some ((s.setChannel id ⟨ch.watch, ch.senders.erase (some i)⟩).setHandler i (.bridge id))
    | _ => none
  | .arm i =>
    match s.handlers i with
    | .bridge id =>
      match s.revocationArm i id with
      | some true => some (s.dropReceiver i id)
      | some false =>
        some (s.setChannel id ⟨(s.channels id).watch.markSeen i, (s.channels id).senders⟩)
      | none => none
    | _ => none
  | .leave i =>
    match s.handlers i with
    | .bridge id => some (s.dropReceiver i id)
    | _ => none

/-- A store that has just been loaded, with a channel for each session. -/
def loaded (store : SessionStore) (clock : Clock) (nextToken : ℕ) : Revocations where
  store := store
  clock := clock
  nextToken := nextToken
  channels := fun id => if (store.inner.lookup id).isSome then .new else .unused
  handlers := fun _ => .idle

end Revocations

def revocationSystem : System Revocations RevocationAct where
  init s := ∃ store clock nextToken,
    (∀ id ∈ store.inner, id < nextToken) ∧ s = .loaded store clock nextToken
  step := Revocations.step

namespace Handler

/-- The session that the handler has asked for. -/
def Names (id : ℕ) : Handler → Prop
  | .idle => False
  | .cloned id' _ | .upgrading id' | .bridge id' => id' = id

/-- The handler holds a clone of the session. -/
def Clones (id : ℕ) : Handler → Prop
  | .cloned id' _ | .upgrading id' => id' = id
  | _ => False

/-- The handler, or its bridge, has a receiver. -/
def Receives (id : ℕ) : Handler → Prop
  | .upgrading id' | .bridge id' => id' = id
  | _ => False

variable {h : Handler}

theorem Clones.names (hc : h.Clones id) : h.Names id := by
  cases h with
  | cloned | upgrading => exact hc
  | _ => cases hc

theorem Receives.names (hr : h.Receives id) : h.Names id := by
  cases h with
  | upgrading | bridge => exact hr
  | _ => cases hr

end Handler

/-! ## The invariant -/

/-- Senders and receivers are where the store and the handlers say. -/
structure RevocationInv (s : Revocations) : Prop where
  tokens : ∀ id ∈ s.store.inner, id < s.nextToken
  names : ∀ i id, (s.handlers i).Names id → id < s.nextToken
  stored : ∀ id, none ∈ (s.channels id).senders ↔ id ∈ s.store.inner
  clones : ∀ id i, some i ∈ (s.channels id).senders ↔ (s.handlers i).Clones id
  receivers : ∀ id i, i ∈ (s.channels id).watch.receivers ↔ (s.handlers i).Receives id
  sound : ∀ id, (s.channels id).watch.Sound
  /-- Whatever was sent was `true`. -/
  value : ∀ id, (s.channels id).watch.version = 0 ∨ (s.channels id).watch.value = true

variable {s s' : Revocations} {i : ℕ}

theorem revocationInv_init (h : revocationSystem.init s) : RevocationInv s := by
  obtain ⟨store, clock, nextToken, htokens, rfl⟩ := h
  have hchannel : ∀ id, (Revocations.loaded store clock nextToken).channels id =
      ⟨.new false, if id ∈ store.inner then {none} else ∅⟩ := by
    intro id
    simp only [Revocations.loaded, AList.lookup_isSome]
    split <;> rfl
  refine ⟨htokens, fun _ _ h => h.elim, fun id => ?_, fun id i => ?_, fun id i => ?_,
    fun id => ?_, fun id => ?_⟩
  all_goals rw [hchannel id]
  · by_cases hid : id ∈ store.inner
    · simp [hid, Revocations.loaded]
    · simp [hid, Revocations.loaded]
  · refine ⟨fun h => ?_, fun h => h.elim⟩
    dsimp only at h
    split at h
    · cases Finset.mem_singleton.mp h
    · exact absurd h (Finset.notMem_empty _)
  · exact ⟨fun h => absurd h (Finset.notMem_empty _), fun h => h.elim⟩
  · exact Watch.Channel.sound_new false
  · exact .inl rfl

/-- A sent value is `true`. -/
theorem value_send {ch : Watch.Channel ℕ Bool} (h : ch.version = 0 ∨ ch.value = true) :
    (ch.send true).version = 0 ∨ (ch.send true).value = true := by
  rw [Watch.Channel.send]
  split
  · exact h
  · exact .inr rfl

theorem RevocationInv.exec (h : RevocationInv s) (op : SessionOp) (written : Bool) :
    RevocationInv (s.exec op written) := by
  have hle : s.nextToken ≤ (s.exec op written).nextToken := by
    simp only [Revocations.exec]
    split <;> omega
  -- nobody has the channel of the session that is opened
  have hfresh : ¬ s.nextToken ∈ s.store.inner ∧ ∀ i, ¬ (s.handlers i).Names s.nextToken :=
    ⟨fun hid => lt_irrefl _ (h.tokens _ hid), fun i hi => lt_irrefl _ (h.names i _ hi)⟩
  refine ⟨fun id hid => ?_, fun i id hi => (h.names i id hi).trans_le hle, fun id => ?_,
    fun id i => ?_, fun id i => ?_, fun id => ?_, fun id => ?_⟩
  · obtain ⟨hopens, rfl⟩ | ⟨hold, _⟩ := mem_exec_iff.mp hid
    · simp only [Revocations.exec, hopens, if_true]
      omega
    · exact (h.tokens id hold).trans_le hle
  · refine Iff.trans ?_ mem_exec_iff.symm
    simp only [Revocations.exec, Revocations.revoked]
    split
    next hopens => simp [RevocationChannel.new, hopens]
    next hopens =>
      split
      next hrevoked => simp [RevocationChannel.revoke, hrevoked, hopens]
      next hrevoked => simp [hrevoked, hopens, h.stored]
  · show some i ∈ (s.revoked op id).senders ↔ _
    rw [Revocations.revoked]
    split
    next hopens =>
      obtain ⟨_, rfl⟩ := hopens
      refine ⟨fun hi => absurd (Finset.mem_singleton.mp hi) nofun, fun hi => ?_⟩
      exact absurd (Handler.Clones.names hi) (hfresh.2 i)
    · split
      · simp [RevocationChannel.revoke, h.clones, Revocations.exec]
      · exact h.clones id i
  · show i ∈ (s.revoked op id).watch.receivers ↔ _
    rw [Revocations.revoked]
    split
    next hopens =>
      obtain ⟨_, rfl⟩ := hopens
      refine ⟨fun hi => absurd hi (Finset.notMem_empty _), fun hi => ?_⟩
      exact absurd (Handler.Receives.names hi) (hfresh.2 i)
    · split
      · simp [RevocationChannel.revoke, h.receivers, Revocations.exec]
      · exact h.receivers id i
  · show (s.revoked op id).watch.Sound
    rw [Revocations.revoked]
    split
    · exact Watch.Channel.sound_new false
    · split
      · exact (h.sound id).send true
      · exact h.sound id
  · show (s.revoked op id).watch.version = 0 ∨ (s.revoked op id).watch.value = true
    rw [Revocations.revoked]
    split
    · exact .inl rfl
    · split
      · exact value_send (h.value id)
      · exact h.value id

/-- A step of a handler that concerns one session only. -/
theorem RevocationInv.handle (h : RevocationInv s) {ch : RevocationChannel} {handler : Handler}
    (hbefore : ∀ id', id' ≠ id → ¬ (s.handlers i).Names id')
    (hafter : ∀ id', id' ≠ id → ¬ handler.Names id') (hid : handler.Names id → id < s.nextToken)
    (hstored : none ∈ ch.senders ↔ none ∈ (s.channels id).senders)
    (hself : some i ∈ ch.senders ↔ handler.Clones id)
    (hothers : ∀ j, j ≠ i → (some j ∈ ch.senders ↔ some j ∈ (s.channels id).senders))
    (hreceiver : i ∈ ch.watch.receivers ↔ handler.Receives id)
    (hreceivers : ∀ j, j ≠ i →
      (j ∈ ch.watch.receivers ↔ j ∈ (s.channels id).watch.receivers))
    (hsound : ch.watch.Sound) (hvalue : ch.watch.version = 0 ∨ ch.watch.value = true) :
    RevocationInv ((s.setChannel id ch).setHandler i handler) := by
  have hself' : ((s.setChannel id ch).setHandler i handler).handlers i = handler :=
    Function.update_self ..
  have hother' : ∀ j, j ≠ i →
      ((s.setChannel id ch).setHandler i handler).handlers j = s.handlers j :=
    fun j hj => Function.update_of_ne hj ..
  have hch : ((s.setChannel id ch).setHandler i handler).channels id = ch :=
    Function.update_self ..
  have hch' : ∀ id', id' ≠ id →
      ((s.setChannel id ch).setHandler i handler).channels id' = s.channels id' :=
    fun id' hid' => Function.update_of_ne hid' ..
  refine ⟨h.tokens, fun j id' hj => ?_, fun id' => ?_, fun id' j => ?_, fun id' j => ?_,
    fun id' => ?_, fun id' => ?_⟩
  · by_cases hji : j = i
    · subst hji
      rw [hself'] at hj
      by_cases hne : id' = id
      · exact hne ▸ hid (hne ▸ hj)
      · exact absurd hj (hafter id' hne)
    · exact h.names j id' (hother' j hji ▸ hj)
  all_goals by_cases hne : id' = id
  · subst hne
    rw [hch]
    exact hstored.trans (h.stored id')
  · rw [hch' id' hne]
    exact h.stored id'
  · subst hne
    rw [hch]
    by_cases hji : j = i
    · subst hji
      rw [hself']
      exact hself
    · rw [hother' j hji]
      exact (hothers j hji).trans (h.clones id' j)
  · rw [hch' id' hne]
    by_cases hji : j = i
    · subst hji
      rw [hself', h.clones]
      exact iff_of_false (fun hc => hbefore id' hne hc.names) (fun hc => hafter id' hne hc.names)
    · rw [hother' j hji]
      exact h.clones id' j
  · subst hne
    rw [hch]
    by_cases hji : j = i
    · subst hji
      rw [hself']
      exact hreceiver
    · rw [hother' j hji]
      exact (hreceivers j hji).trans (h.receivers id' j)
  · rw [hch' id' hne]
    by_cases hji : j = i
    · subst hji
      rw [hself', h.receivers]
      exact iff_of_false (fun hc => hbefore id' hne hc.names) (fun hc => hafter id' hne hc.names)
    · rw [hother' j hji]
      exact h.receivers id' j
  · subst hne
    rw [hch]
    exact hsound
  · rw [hch' id' hne]
    exact h.sound id'
  · subst hne
    rw [hch]
    exact hvalue
  · rw [hch' id' hne]
    exact h.value id'

/-- A clone that is taken. -/
theorem RevocationInv.clone (h : RevocationInv s) {x : Session}
    (hidle : s.handlers i = .idle) (hid : id ∈ s.store.inner) :
    RevocationInv ((s.setChannel id ⟨(s.channels id).watch,
      insert (some i) (s.channels id).senders⟩).setHandler i (.cloned id x)) := by
  have hnot : ¬ i ∈ (s.channels id).watch.receivers := by
    rw [h.receivers, hidle]
    exact fun hr => hr
  refine h.handle (fun _ _ hn => ?_) (fun _ hne hn => hne hn.symm) (fun _ => h.tokens id hid)
    ?_ ?_ ?_
    ?_ (fun _ _ => Iff.rfl) (h.sound id) (h.value id)
  · rw [hidle] at hn
    exact hn
  · simp
  · simp [Handler.Clones]
  · intro j hj
    simp [hj]
  · exact iff_of_false hnot fun hr => hr

/-- The receiver is dropped. -/
theorem RevocationInv.dropReceiver (h : RevocationInv s) (hbridge : s.handlers i = .bridge id) :
    RevocationInv (s.dropReceiver i id) := by
  refine h.handle (fun id' hne hn => ?_) (fun _ _ hn => hn) (fun hn => hn.elim) Iff.rfl ?_
    (fun _ _ => Iff.rfl) ?_ (fun j hj => ?_) ((h.sound id).unsubscribe i) (h.value id)
  · rw [hbridge] at hn
    exact hne hn.symm
  · rw [h.clones, hbridge]
    exact Iff.rfl
  · simp [Watch.Channel.unsubscribe, Handler.Receives]
  · simp [Watch.Channel.unsubscribe, hj]

/-- What the receiver of a bridge has not seen is `true`. -/
theorem RevocationInv.value_of_changed (h : RevocationInv s) (hbridge : s.handlers i = .bridge id)
    (hchanged : (s.channels id).watch.changed i = true) : (s.channels id).watch.value = true := by
  have hreceiver : i ∈ (s.channels id).watch.receivers := by
    rw [h.receivers, hbridge]
    exact rfl
  obtain hversion | hvalue := h.value id
  · have hseen := h.sound id i hreceiver
    have hne : (s.channels id).watch.seen i ≠ (s.channels id).watch.version :=
      bne_iff_ne.mp hchanged
    omega
  · exact hvalue

theorem RevocationInv.step (h : RevocationInv s) {a : RevocationAct} (hstep : s.step a = some s') :
    RevocationInv s' := by
  cases a with
  | store op written => exact Option.some.inj hstep ▸ h.exec op written
  | clone i id written =>
    simp only [Revocations.step] at hstep
    split at hstep
    next x hidle hget =>
      obtain rfl := Option.some.inj hstep
      refine (h.exec (.get id) written).clone hidle (mem_exec_iff.mpr (.inr ?_))
      obtain ⟨hlookup, hlive⟩ := SessionStore.lookup_of_get hget
      refine ⟨AList.lookup_isSome.mp (by rw [hlookup]; rfl), ?_⟩
      rw [SessionStore.revokes, hlookup, Option.any_some, hlive, if_neg Bool.false_ne_true]
      exact List.not_mem_nil
    · exact Option.some.inj hstep ▸ h.exec (.get id) written
    · cases hstep
  | subscribe i =>
    simp only [Revocations.step] at hstep
    split at hstep
    next id x hcloned =>
      split at hstep
      · obtain rfl := Option.some.inj hstep
        have hnames : (s.handlers i).Names id := by rw [hcloned]; exact rfl
        refine h.handle (fun id' hne hn => ?_) (fun _ hne hn => hne hn.symm)
          (fun _ => h.names i id hnames) Iff.rfl ?_ (fun _ _ => Iff.rfl) ?_ (fun j hj => ?_)
          ((h.sound id).subscribe i) (h.value id)
        · rw [hcloned] at hn
          exact hne hn.symm
        · rw [h.clones, hcloned]
          exact Iff.rfl
        · simp [Watch.Channel.subscribe, Handler.Receives]
        · simp [Watch.Channel.subscribe, hj]
      · cases hstep
    · cases hstep
  | ret i =>
    simp only [Revocations.step] at hstep
    split at hstep
    next id x hcloned =>
      obtain rfl := Option.some.inj hstep
      refine h.handle (fun id' hne hn => ?_) (fun _ _ hn => hn) (fun hn => hn.elim) ?_ ?_ ?_ ?_
        (fun _ _ => Iff.rfl) (h.sound id) (h.value id)
      · rw [hcloned] at hn
        exact hne hn.symm
      · simp
      · simp [Handler.Clones]
      · intro j hj
        simp [hj]
      · rw [h.receivers, hcloned]
        exact Iff.rfl
    next id hupgrading =>
      obtain rfl := Option.some.inj hstep
      have hnames : (s.handlers i).Names id := by rw [hupgrading]; exact rfl
      refine h.handle (fun id' hne hn => ?_) (fun _ hne hn => hne hn.symm)
        (fun _ => h.names i id hnames) ?_ ?_ ?_ ?_ (fun _ _ => Iff.rfl) (h.sound id) (h.value id)
      · rw [hupgrading] at hn
        exact hne hn.symm
      · simp
      · simp [Handler.Clones]
      · intro j hj
        simp [hj]
      · rw [h.receivers, hupgrading]
        exact Iff.rfl
    · cases hstep
  | arm i =>
    simp only [Revocations.step] at hstep
    split at hstep
    next id hbridge =>
      split at hstep
      · exact Option.some.inj hstep ▸ h.dropReceiver hbridge
      next harm =>
        rw [Revocations.revocationArm] at harm
        split at harm
        next hchanged => cases harm.symm.trans (congrArg some (h.value_of_changed hbridge hchanged))
        · split at harm <;> cases harm
      · cases hstep
    · cases hstep
  | leave i =>
    simp only [Revocations.step] at hstep
    split at hstep
    next id hbridge => exact Option.some.inj hstep ▸ h.dropReceiver hbridge
    · cases hstep

/-- **No revocation is lost**: when a session has left the store, and no handler holds a clone of it
any more, the revocation arm ends the bridge of each of its connections. -/
theorem revocation_arm_breaks (h : revocationSystem.Reachable s)
    (hbridge : s.handlers i = .bridge id) (hgone : s.store.inner.lookup id = none)
    (hreturned : ∀ j, ¬ (s.handlers j).Clones id) :
    s.revocationArm i id = some true := by
  have hinv : RevocationInv s :=
    System.Reach.invariant (fun _ => revocationInv_init) (fun _ _ _ _ hs _ hstep => hs.step hstep) h
  rw [Revocations.revocationArm]
  split
  next hchanged => rw [hinv.value_of_changed hbridge hchanged]
  · rw [if_pos]
    rw [Finset.eq_empty_iff_forall_notMem]
    intro owner
    cases owner with
    | none =>
      rw [hinv.stored]
      exact AList.lookup_eq_none.mp hgone
    | some j =>
      rw [hinv.clones]
      exact hreturned j

/-! ### A logout before the subscription -/

namespace RevocationSample

def signedIn : Session := ⟨true, false, "alice".toList, none, 1, 0, 0⟩

def start : Revocations :=
  .loaded ⟨AList.singleton 0 signedIn, fromSecs 3600, none, fun _ => ∅⟩ ⟨0, 0⟩ 2

/-- The session is removed between the clone and the call of `revocation`. -/
def logout : List RevocationAct :=
  [.clone 0 0 true, .store (.remove 0) true, .subscribe 0, .ret 0]

def after : Revocations := (revocationSystem.run start logout).getD start

theorem start_reachable : revocationSystem.Reachable start := by
  refine .init ⟨_, _, _, fun id hid => ?_, rfl⟩
  obtain rfl := List.mem_singleton.mp (AList.mem_keys.mp hid)
  exact Nat.two_pos

theorem run_logout : revocationSystem.run start logout = some after := rfl

/-- The handler has returned. -/
theorem not_clones (j : ℕ) : ¬ (after.handlers j).Clones 0 := by
  cases j with
  | zero => exact fun hj => hj
  | succ j => exact fun hj => hj

end RevocationSample

open RevocationSample

/-- The `true` is sent to nobody, and the bridge ends as its channel is closed. -/
theorem revocation_arm_breaks_logout :
    (after.channels 0).watch.value = false ∧ after.revocationArm 0 0 = some true :=
  ⟨rfl, revocation_arm_breaks (start_reachable.run run_logout) rfl rfl not_clones⟩

end Webshell
