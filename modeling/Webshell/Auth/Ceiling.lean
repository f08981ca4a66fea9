import Webshell.Auth.SessionFile

/-!
# The session ceiling

How many sessions a store holds. `create` makes room before it inserts, and `set_oauth` replaces
what it inserts; `login` and `begin_mfa` only take out the session they are called with, which may
be gone by then.

## Main definitions

- `SessionRun`: a store under the calls of many requests, one after the other
- `HasRoom`: a call that replaces a session, or finds the store not full

## Main results

- `ceiling_iff`: the ceiling holds all along a run exactly if it holds at its start and every call
  has room
- `ceiling_exceeded`: a login whose session has been removed in the meantime
-/

namespace Webshell

open Transition

/-- A session store, the readings of the clocks, and the next of the tokens it draws. -/
structure SessionRun where
  store : SessionStore
  clock : Clock
  nextToken : ℕ

namespace SessionRun

/-- The number of stored sessions. -/
def count (s : SessionRun) : ℕ := s.store.inner.entries.length

/-- The next call, or a tick of the clocks. `written` says whether the file could be written. -/
def step (s : SessionRun) (call : SessionOp × Bool) : Option SessionRun :=
  let (op, written) := call
  match op with
  | .create => some ⟨s.store.create s.nextToken s.clock, s.clock, s.nextToken + 2⟩
  | .get id => some { s with store := (s.store.get id s.clock written).2 }
  | .remove id => some { s with store := s.store.remove id s.clock written }
  | .login oldId username =>
    some ⟨s.store.login oldId s.nextToken username s.clock written, s.clock, s.nextToken + 2⟩
  | .beginMfa oldId username =>
    some ⟨s.store.beginMfa oldId s.nextToken username s.clock written, s.clock, s.nextToken + 2⟩
  | .setOauth id flow => some { s with store := s.store.setOauth id flow s.clock written }
  | .sweep => some { s with store := s.store.sweep s.clock written }
  | .tick clock => if s.clock.instant ≤ clock.instant then some { s with clock := clock } else none

/-- No session has an id that has not been drawn yet. -/
def Fresh (s : SessionRun) : Prop := ∀ id, s.nextToken ≤ id → s.store.inner.lookup id = none

end SessionRun

/-- An empty store, or one that has just loaded its file, whatever that held. -/
def sessionRunSystem : System SessionRun (SessionOp × Bool) where
  init s := s.Fresh ∧ ((∃ ttl disk, s.store = .new ttl disk) ∨
    ∃ path ttl disk written, s.store = .load path ttl disk s.clock written)
  step := SessionRun.step

/-- The session that a login takes out is there, or the store is not full. -/
def HasRoom (s : SessionRun) (call : SessionOp × Bool) : Prop :=
  match call.1 with
  | .login oldId _ | .beginMfa oldId _ =>
    (s.store.inner.lookup oldId).isSome = true ∨ s.count < maxSessions
  | _ => True

section
variable {s s' : SessionRun} {call : SessionOp × Bool}

/-! ## What a call does to the number -/

namespace SessionStore

variable {store : SessionStore} {id oldId : ℕ} {clock : Clock} {written : Bool}

/-- A store that is not empty has a victim, which is one of its sessions. -/
theorem exists_victim (hne : store.inner.entries ≠ []) :
    ∃ k, store.victim = some k ∧ (store.inner.lookup k).isSome = true := by
  have holdest : ∀ entries : List (Σ _ : ℕ, Session), entries ≠ [] →
      ∃ entry ∈ entries, (entries.argmin fun entry => entry.2.created) = some entry := by
    intro entries hentries
    have hmin : (entries.argmin fun entry => entry.2.created) ≠ none :=
      fun hnone => hentries (List.argmin_eq_none.mp hnone)
    obtain ⟨entry, hentry⟩ := Option.ne_none_iff_exists'.mp hmin
    exact ⟨entry, List.argmin_mem hentry, hentry⟩
  have hlookup : ∀ entry ∈ store.inner.entries, (store.inner.lookup entry.1).isSome = true :=
    fun entry hentry => Option.isSome_iff_exists.mpr ⟨entry.2, AList.mem_lookup_iff.mpr hentry⟩
  rw [victim]
  by_cases hanonymous : (store.inner.entries.filter fun entry => !entry.2.authenticated) = []
  · obtain ⟨entry, hmem, hmin⟩ := holdest _ hne
    refine ⟨entry.1, ?_, hlookup entry hmem⟩
    rw [hanonymous, hmin]
    rfl
  · obtain ⟨entry, hmem, hmin⟩ := holdest _ hanonymous
    refine ⟨entry.1, ?_, hlookup entry (List.mem_of_mem_filter hmem)⟩
    rw [hmin]
    rfl

theorem length_create_of_lt (hroom : store.inner.entries.length < maxSessions)
    (hfresh : store.inner.lookup id = none) :
    (store.create id clock).inner.entries.length = store.inner.entries.length + 1 := by
  rw [create]
  dsimp only
  rw [AList.length_insert, if_neg (not_le.mpr hroom), AList.length_erase, hfresh]
  rfl

theorem length_create_le (hlength : store.inner.entries.length ≤ maxSessions)
    (hfresh : store.inner.lookup id = none) :
    (store.create id clock).inner.entries.length ≤ maxSessions := by
  by_cases hfull : maxSessions ≤ store.inner.entries.length
  · have hpos : 0 < store.inner.entries.length :=
      lt_of_lt_of_le (by decide : 0 < maxSessions) hfull
    obtain ⟨k, hvictim, hk⟩ := exists_victim (List.length_pos_iff.mp hpos)
    -- the victim goes, and the new session takes its place
    have hgone : (store.inner.erase k).lookup id = none :=
      Option.eq_none_iff_forall_ne_some.mpr fun x hx => by
        have hold := (AList.lookup_of_lookup_erase hx).2
        rw [hfresh] at hold
        cases hold
    rw [create, if_pos hfull, hvictim]
    dsimp only
    rw [AList.length_insert, AList.length_erase, hgone, AList.length_erase, if_pos hk]
    simp only [Option.isSome_none, Bool.false_eq_true, if_false]
    omega
  · rw [length_create_of_lt (not_le.mp hfull) hfresh]
    omega

/-- A login adds a session, and removes one if it is there. -/
theorem length_promote {authenticated mfaPending : Bool} {username : Text}
    (hfresh : store.inner.lookup id = none) :
    (store.promote oldId id authenticated mfaPending username clock written).inner.entries.length =
      if (store.inner.lookup oldId).isSome then store.inner.entries.length
      else store.inner.entries.length + 1 := by
  have hgone : (store.inner.erase oldId).lookup id = none :=
    Option.eq_none_iff_forall_ne_some.mpr fun x hx => by
      have hold := (AList.lookup_of_lookup_erase hx).2
      rw [hfresh] at hold
      cases hold
  rw [promote, inner_persist, AList.length_insert, AList.length_erase, hgone, AList.length_erase]
  simp only [Option.isSome_none, Bool.false_eq_true, if_false]
  split
  next hold =>
    have hpos : 0 < store.inner.entries.length := by
      obtain ⟨x, hx⟩ := Option.isSome_iff_exists.mp hold
      exact List.length_pos_of_mem (AList.mem_lookup_iff.mp hx)
    omega
  next => rfl

theorem length_get_le : (store.get id clock written).2.inner.entries.length ≤
    store.inner.entries.length := by
  rw [get]
  split
  · split
    · rw [inner_persist]
      exact AList.length_erase_le _ _
    · exact le_rfl
  · exact le_rfl

theorem length_remove_le : (store.remove id clock written).inner.entries.length ≤
    store.inner.entries.length := by
  rw [remove]
  split
  · rw [inner_persist]
    exact AList.length_erase_le _ _
  · exact le_rfl

theorem length_sweep_le : (store.sweep clock written).inner.entries.length ≤
    store.inner.entries.length := by
  have hretain := AList.length_retain_le (fun _ x => !x.expired store.ttl clock.instant) store.inner
  rw [sweep]
  split
  · rwa [inner_persist]
  · exact hretain

theorem length_setOauth {flow : Option Oidc.Flow} :
    (store.setOauth id flow clock written).inner.entries.length = store.inner.entries.length := by
  rw [setOauth]
  split
  next x hx =>
    have hpos : 0 < store.inner.entries.length :=
      List.length_pos_of_mem (AList.mem_lookup_iff.mp hx)
    rw [inner_persist, AList.length_insert, AList.length_erase, hx]
    simp only [Option.isSome_some, if_true]
    omega
  · rfl

end SessionStore

/-! ## Runs -/

/-- Ids are drawn once. -/
theorem SessionRun.Fresh.step (h : s.Fresh) (hs : sessionRunSystem.step s call = some s') :
    s'.Fresh := by
  obtain ⟨op, written⟩ := call
  have hkeeps : ∀ {store : SessionStore}, s.store.Keeps store → ∀ id, s.nextToken ≤ id →
      store.inner.lookup id = none := fun hk id hid => hk.absent id (h id hid)
  have hadds : ∀ {store : SessionStore} {c : Credential},
      SessionStore.Adds s.nextToken c s.store store → ∀ id, s.nextToken + 2 ≤ id →
      store.inner.lookup id = none :=
    fun ha id hid => ha.absent id (by omega) (h id (by omega))
  cases op with
  | create =>
    obtain rfl := Option.some.inj hs
    exact hadds (SessionStore.adds_create ..)
  | get id =>
    obtain rfl := Option.some.inj hs
    exact hkeeps (SessionStore.keeps_get ..)
  | remove id =>
    obtain rfl := Option.some.inj hs
    exact hkeeps (SessionStore.keeps_remove ..)
  | login oldId username =>
    obtain rfl := Option.some.inj hs
    exact hadds (SessionStore.adds_promote ..)
  | beginMfa oldId username =>
    obtain rfl := Option.some.inj hs
    exact hadds (SessionStore.adds_promote ..)
  | setOauth id flow =>
    obtain rfl := Option.some.inj hs
    exact hkeeps (SessionStore.keeps_setOauth ..)
  | sweep =>
    obtain rfl := Option.some.inj hs
    exact hkeeps (SessionStore.keeps_sweep ..)
  | tick clock =>
    obtain ⟨_, heq⟩ := Option.ite_none_right_eq_some.mp hs
    obtain rfl := Option.some.inj heq
    exact h

/-- **Step lemma**: under the ceiling, a call stays under it exactly if it has room. -/
theorem SessionRun.count_step_le_iff (hfresh : s.Fresh) (h : s.count ≤ maxSessions)
    (hs : sessionRunSystem.step s call = some s') :
    s'.count ≤ maxSessions ↔ HasRoom s call := by
  obtain ⟨op, written⟩ := call
  have hnew := hfresh s.nextToken le_rfl
  -- a login and a `begin_mfa` differ in what the new session says
  have hpromote : ∀ (oldId : ℕ) (authenticated mfaPending : Bool) (username : Text),
      (s.store.promote oldId s.nextToken authenticated mfaPending username s.clock
        written).inner.entries.length ≤ maxSessions ↔
      ((s.store.inner.lookup oldId).isSome = true ∨ s.count < maxSessions) := by
    intro oldId authenticated mfaPending username
    rw [SessionStore.length_promote hnew]
    split
    next hold => exact iff_of_true h (.inl hold)
    next hold => exact ⟨fun hlt => .inr hlt, fun hroom => hroom.resolve_left hold⟩
  cases op with
  | create =>
    obtain rfl := Option.some.inj hs
    exact iff_of_true (SessionStore.length_create_le h hnew) trivial
  | get id =>
    obtain rfl := Option.some.inj hs
    exact iff_of_true (SessionStore.length_get_le.trans h) trivial
  | remove id =>
    obtain rfl := Option.some.inj hs
    exact iff_of_true (SessionStore.length_remove_le.trans h) trivial
  | login oldId username =>
    obtain rfl := Option.some.inj hs
    exact hpromote oldId true false username
  | beginMfa oldId username =>
    obtain rfl := Option.some.inj hs
    exact hpromote oldId false true username
  | setOauth id flow =>
    obtain rfl := Option.some.inj hs
    exact iff_of_true (SessionStore.length_setOauth.trans_le h) trivial
  | sweep =>
    obtain rfl := Option.some.inj hs
    exact iff_of_true (SessionStore.length_sweep_le.trans h) trivial
  | tick clock =>
    obtain ⟨_, heq⟩ := Option.ite_none_right_eq_some.mp hs
    obtain rfl := Option.some.inj heq
    exact iff_of_true h trivial

/-- **The session ceiling.** From an empty or a loaded store, the number of sessions stays within
`MAX_SESSIONS` all along a run exactly if the run starts within it and every `login` and every
`begin_mfa` replaces a session that is still there, or finds the store not full. -/
theorem ceiling_iff {calls : List (SessionOp × Bool)} (hinit : sessionRunSystem.init s)
    (hrun : sessionRunSystem.run s calls = some s') :
    ((∀ e ∈ sessionRunSystem.steps s calls, e.1.count ≤ maxSessions) ∧ s'.count ≤ maxSessions) ↔
      s.count ≤ maxSessions ∧ ∀ e ∈ sessionRunSystem.steps s calls, HasRoom e.1 e.2 := by
  have hfresh : s.Fresh := hinit.1
  clear hinit
  induction calls generalizing s with
  | nil =>
    obtain rfl := Option.some.inj hrun
    simp [System.steps]
  | cons call calls ih =>
    obtain ⟨t, hstep, hrest⟩ := System.run_cons_eq_some hrun
    have hiff := ih hrest (hfresh.step hstep)
    have hsteps : sessionRunSystem.steps s (call :: calls) =
        (s, call) :: sessionRunSystem.steps t calls := by rw [System.steps, hstep]
    rw [hsteps, List.forall_mem_cons, List.forall_mem_cons, and_assoc]
    refine and_congr_right fun hs => hiff.trans ?_
    rw [SessionRun.count_step_le_iff hfresh hs hstep]

/-- A visit, a login in its place, and a second login with the old id. -/
theorem ceiling_iff_logins :
    ∃ s s', sessionRunSystem.init s ∧ sessionRunSystem.run s
        [(.create, true), (.login 0 [], true), (.login 0 [], true)] = some s' ∧
      s'.count = 2 ∧ s'.count ≤ maxSessions := by
  have hinit : sessionRunSystem.init ⟨.new 0 fun _ => ∅, ⟨0, 0⟩, 0⟩ :=
    ⟨fun id _ => AList.lookup_empty id, .inl ⟨0, fun _ => ∅, rfl⟩⟩
  obtain ⟨s₁, s₂, s₃, hcreate, hlogin, hagain, hin, hroom, hcount⟩ : ∃ s₁ s₂ s₃,
      sessionRunSystem.step ⟨.new 0 fun _ => ∅, ⟨0, 0⟩, 0⟩ (.create, true) = some s₁ ∧
      sessionRunSystem.step s₁ (.login 0 [], true) = some s₂ ∧
      sessionRunSystem.step s₂ (.login 0 [], true) = some s₃ ∧
      (s₁.store.inner.lookup 0).isSome = true ∧ s₂.count = 1 ∧ s₃.count = 2 :=
    ⟨_, _, _, rfl, rfl, rfl, rfl, rfl, rfl⟩
  have hrun : sessionRunSystem.run ⟨.new 0 fun _ => ∅, ⟨0, 0⟩, 0⟩
      [(.create, true), (.login 0 [], true), (.login 0 [], true)] = some s₃ := by
    rw [System.run_cons_of_step hcreate, System.run_cons_of_step hlogin,
      System.run_cons_of_step hagain, System.run_nil]
  refine ⟨_, s₃, hinit, hrun, hcount, ((ceiling_iff hinit hrun).mpr ⟨Nat.zero_le _, ?_⟩).2⟩
  simp only [System.steps, hcreate, hlogin, hagain, List.forall_mem_cons]
  exact ⟨trivial, .inl hin, .inr (hroom.trans_lt (by decide)), List.forall_mem_nil _⟩

/-! ### One login too many -/

/-- Anonymous visits that fill a store up. -/
theorem SessionRun.Fresh.exists_run_creates (hfresh : s.Fresh) (k : ℕ)
    (hroom : s.count + k ≤ maxSessions) :
    ∃ s', sessionRunSystem.run s (List.replicate k (.create, true)) = some s' ∧
      s'.Fresh ∧ s'.count = s.count + k ∧
      ∀ id < s.nextToken, s.store.inner.lookup id = none → s'.store.inner.lookup id = none := by
  induction k generalizing s with
  | zero => exact ⟨s, rfl, hfresh, rfl, fun _ _ hnone => hnone⟩
  | succ k ih =>
    have hnew := hfresh s.nextToken le_rfl
    have hstep : sessionRunSystem.step s (.create, true) =
        some ⟨s.store.create s.nextToken s.clock, s.clock, s.nextToken + 2⟩ := rfl
    have hcount : (⟨s.store.create s.nextToken s.clock, s.clock, s.nextToken + 2⟩ :
        SessionRun).count = s.count + 1 :=
      SessionStore.length_create_of_lt (show s.count < maxSessions by omega) hnew
    obtain ⟨s', hrun, hfresh', hlength, hkeep⟩ :=
      ih (hfresh.step hstep) (by rw [hcount]; omega)
    refine ⟨s', ?_, hfresh', by rw [hlength, hcount]; omega, fun id hid hnone => ?_⟩
    · rw [List.replicate_succ]
      exact (System.run_cons_of_step hstep).trans hrun
    · refine hkeep id (show id < s.nextToken + 2 by omega) ?_
      exact (SessionStore.adds_create s.store s.nextToken s.clock).absent id hid.ne hnone

/-- A browser whose session is removed while its login is under way, and ten thousand visits. -/
def ceilingRun : List (SessionOp × Bool) :=
  [(.create, true), (.remove 0, true)] ++ (List.replicate maxSessions (.create, true) ++
    [(.login 0 "local:alice".toList, true)])

/-- The login finds the store full and no session to take out. -/
theorem ceiling_exceeded :
    ∃ s s', sessionRunSystem.init s ∧ sessionRunSystem.run s ceilingRun = some s' ∧
      s.count = 0 ∧ s'.count = maxSessions + 1 := by
  have hinit : sessionRunSystem.init ⟨.new 0 fun _ => ∅, ⟨0, 0⟩, 0⟩ :=
    ⟨fun id _ => AList.lookup_empty id, .inl ⟨0, fun _ => ∅, rfl⟩⟩
  obtain ⟨s₀, hrun₀, hstep₀⟩ : ∃ s₀, sessionRunSystem.step ⟨.new 0 fun _ => ∅, ⟨0, 0⟩, 0⟩
      (.create, true) = some s₀ ∧ ∃ s₁, sessionRunSystem.step s₀ (.remove 0, true) = some s₁ ∧
        s₁.count = 0 ∧ s₁.store.inner.lookup 0 = none ∧ s₁.nextToken = 2 :=
    ⟨_, rfl, _, rfl, rfl, rfl, rfl⟩
  obtain ⟨s₁, hrun₁, hcount₁, hnone₁, htoken₁⟩ := hstep₀
  obtain ⟨s₂, hrun₂, hfresh₂, hcount₂, hkeep⟩ :=
    ((hinit.1.step hrun₀).step hrun₁).exists_run_creates maxSessions (by rw [hcount₁, Nat.zero_add])
  have hnone₂ := hkeep 0 (by rw [htoken₁]; exact Nat.two_pos) hnone₁
  refine ⟨_, ⟨s₂.store.login 0 s₂.nextToken "local:alice".toList s₂.clock true, s₂.clock,
    s₂.nextToken + 2⟩, hinit, ?_, rfl, ?_⟩
  · rw [ceilingRun, List.cons_append, System.run_cons_of_step hrun₀, List.cons_append,
      System.run_cons_of_step hrun₁, List.nil_append, System.run_append hrun₂]
    exact System.run_cons_of_step rfl
  · -- the old session is gone, so the login only adds
    have hlogin : (s₂.store.login 0 s₂.nextToken "local:alice".toList s₂.clock
        true).inner.entries.length =
        if (s₂.store.inner.lookup 0).isSome then s₂.store.inner.entries.length
        else s₂.store.inner.entries.length + 1 :=
      SessionStore.length_promote (hfresh₂ s₂.nextToken le_rfl)
    rw [hnone₂] at hlogin
    refine hlogin.trans ?_
    change s₂.count + 1 = maxSessions + 1
    rw [hcount₂, hcount₁, Nat.zero_add]

end

end Webshell
