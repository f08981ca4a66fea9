import Webshell.Share.Viewer

/-!
# The end of a share

What the viewers of a share get after its end.

## Main definitions

- `Ends`: the events that end a share
- `NoFrameAfterEnd`: the frames in a history, and the ends of shares

## Main results

- `no_frame_after_end`: in every run there is no frame after the end of a share but one that has
  passed its checks, an invalid lease stays invalid, and a revocation ends the leases of its grant
  and leaves the other users' grants alone
-/

namespace Webshell.Share

open Transition History

/-- The event ends the share of the lease: its expiry is reached, or its grant leaves the map. -/
def Ends (l : Lease) (e : Event) : Prop :=
  e = .ended l.grant ∨ ∃ now, e = .tick now ∧ l.expiresAtTime ≤ now

/-- No frame goes out after the end of a share, but for one that has passed its checks. -/
structure NoFrameAfterEnd (s : Sharing) : Prop where
  /-- Every frame passed its checks in the send that handed it over. -/
  checked : ∀ before v frame after, s.history = before ++ .handed v frame :: after →
    ∃ viewer, s.viewers v = some viewer ∧ Cleared viewer.lease v before
  /-- After a frame that follows the end of the share there is no other. -/
  last : ∀ before e between v frame after viewer,
    s.history = before ++ e :: (between ++ .handed v frame :: after) →
    s.viewers v = some viewer → Ends viewer.lease e → ∀ frame', .handed v frame' ∉ after
  /-- After a send was refused or failed there is no frame. -/
  stopped : ∀ before v after, s.history = before ++ .stopped v :: after →
    ∀ frame, .handed v frame ∉ after
  /-- A Close is the last thing handed over. -/
  closed : ∀ before v after, s.history = before ++ .closed v :: after →
    .closed v ∉ after ∧ ∀ frame, .handed v frame ∉ after

section
variable {s s' : Sharing}

/-- A frame after the end of the share passed its first check before it, so nothing the viewer did
in between was the end of an earlier send. -/
theorem no_frame_between {before between : List Event} {e : Event} {l : Lease} {v : ℕ}
    {frame : Frame} {rest : List Event} (hends : Ends l e)
    (hcleared : Cleared l v (before ++ e :: (between ++ .handed v frame :: rest))) : False := by
  obtain ⟨pre, mid, post, heq, hmid, hpost, htick, hended⟩ := hcleared
  have hnot : .handed v frame ∉ .expiryChecked v :: (mid ++ .revocationChecked v :: post) := by
    intro hmem
    obtain hmem | hmem := List.mem_cons.mp hmem
    · cases hmem
    · obtain hmem | hmem := List.mem_append.mp hmem
      · exact hmid _ hmem rfl
      · obtain hmem | hmem := List.mem_cons.mp hmem
        · cases hmem
        · exact hpost _ hmem rfl
  -- the earlier frame, and with it the end of the share, lies before the first check
  have hsplit : before ++ e :: (between ++ .handed v frame :: rest) =
      (before ++ e :: between) ++ .handed v frame :: rest := by simp
  obtain ⟨_, rfl⟩ := prefix_of_not_mem (hsplit.symm.trans heq) hnot
  obtain rfl | ⟨now, rfl, hle⟩ := hends
  · exact hended (by simp)
  · have hlt := htick now (by simp)
    omega

theorem noFrameAfterEnd_of_inv (h : SharingInv s) : NoFrameAfterEnd s where
  checked before v frame after heq := (h.allowed before _ after heq).1
  last before e between v frame after viewer heq hv hends frame' hmem := by
    obtain ⟨mid, rest, rfl⟩ := List.append_of_mem hmem
    have hsplit : s.history = (before ++ e :: (between ++ .handed v frame :: mid)) ++
        .handed v frame' :: rest := by
      rw [heq]
      simp
    obtain ⟨⟨viewer', hv', hcleared⟩, _⟩ := h.allowed _ _ _ hsplit
    obtain rfl := Option.some.inj (hv.symm.trans hv')
    exact no_frame_between hends hcleared
  stopped before v after heq frame hmem := by
    obtain ⟨mid, rest, rfl⟩ := List.append_of_mem hmem
    have hsplit : s.history = (before ++ .stopped v :: mid) ++ .handed v frame :: rest := by
      rw [heq]
      simp
    exact (h.allowed _ _ _ hsplit).2.1 (by simp)
  closed before v after heq := by
    refine ⟨fun hmem => ?_, fun frame hmem => ?_⟩
    · obtain ⟨mid, rest, rfl⟩ := List.append_of_mem hmem
      have hsplit : s.history = (before ++ .closed v :: mid) ++ .closed v :: rest := by
        rw [heq]
        simp
      exact h.allowed _ _ _ hsplit (by simp)
    · obtain ⟨mid, rest, rfl⟩ := List.append_of_mem hmem
      have hsplit : s.history = (before ++ .closed v :: mid) ++ .handed v frame :: rest := by
        rw [heq]
        simp
      exact (h.allowed _ _ _ hsplit).2.2 (by simp)

/-! ## Validity -/

theorem Lease.expired_of_le {l : Lease} {clock clock' : ℕ} (hle : clock ≤ clock')
    (h : l.expired clock = true) : l.expired clock' = true := by
  simp only [Lease.expired, decide_eq_true_eq] at h ⊢
  exact h.trans hle

/-- Being revoked depends on the grants, the values of the channels and their senders. -/
theorem Lease.revoked_congr {l : Lease} {store store' : ShareStore}
    (hgrants : store'.grants = store.grants)
    (hvalue : (store'.signals l.grant).revoked.value = (store.signals l.grant).revoked.value)
    (hclones : (store'.signals l.grant).clones = (store.signals l.grant).clones) :
    l.revoked store' = l.revoked store := by
  rw [Lease.revoked, hvalue, hclones, ShareStore.get, hgrants, Lease.revoked, ShareStore.get]

theorem Lease.revoked_dropLease (l : Lease) (store : ShareStore) (id v : ℕ) :
    l.revoked (store.dropLease id v) = l.revoked store := by
  refine Lease.revoked_congr rfl ?_ ?_
  · by_cases hid : l.grant = id
    · simp [ShareStore.dropLease, ShareStore.setSignal, Watch.Channel.unsubscribe, hid]
    · simp [ShareStore.dropLease, ShareStore.setSignal, hid]
  · by_cases hid : l.grant = id
    · simp [ShareStore.dropLease, ShareStore.setSignal, hid]
    · simp [ShareStore.dropLease, ShareStore.setSignal, hid]

theorem valid_eq_false_iff {l : Lease} {store : ShareStore} {clock : ℕ} :
    l.valid store clock = false ↔ l.expired clock = true ∨ l.revoked store = true := by
  simp only [Lease.valid, Bool.and_eq_false_iff, Bool.not_eq_false']

/-- A step only moves the clock forward and the store by an operation, a lease or the end of one. -/
theorem invalid_step {l : Lease} {a : Act} (hl : l.grant < s.store.nextId)
    (hinvalid : l.valid s.store s.clock = false) (hstep : sharingStep s a = some s') :
    l.grant < s'.store.nextId ∧ l.valid s'.store s'.clock = false := by
  have hstore : ∀ store, StoreOp s.store store →
      l.grant < store.nextId ∧ l.valid store s.clock = false := by
    intro store hop
    refine ⟨hl.trans_le hop.nextId, valid_eq_false_iff.mpr ?_⟩
    exact (valid_eq_false_iff.mp hinvalid).imp_right (hop.revoked hl)
  have hviewer : ∀ v a, s.stepViewer v a = some s' →
      l.grant < s'.store.nextId ∧ l.valid s'.store s'.clock = false := by
    intro v a hv
    obtain ⟨viewer, _, hrest⟩ := Option.bind_eq_some_iff.mp hv
    obtain ⟨⟨pc, events⟩, _, hs'⟩ := Option.bind_eq_some_iff.mp hrest
    obtain rfl := Option.some.inj hs'
    split
    · refine ⟨hl, ?_⟩
      change l.valid (s.store.dropLease viewer.lease.grant v) s.clock = false
      rwa [Lease.valid, Lease.revoked_dropLease]
    · exact ⟨hl, hinvalid⟩
  cases a with
  | tick later =>
    obtain rfl := Option.some.inj hstep
    refine ⟨hl, valid_eq_false_iff.mpr ?_⟩
    exact (valid_eq_false_iff.mp hinvalid).imp_left (Lease.expired_of_le (Nat.le_add_right _ _))
  | create before username index ttl =>
    simp only [sharingStep, Option.ite_none_right_eq_some, Option.some.injEq] at hstep
    exact hstep.2 ▸ hstore _ (storeOp_create ..)
  | lease token before =>
    simp only [sharingStep, Option.ite_none_right_eq_some] at hstep
    obtain ⟨_, hmatch⟩ := hstep
    split at hmatch
    · exact Option.some.inj hmatch ▸ ⟨hl, hinvalid⟩
    · next lease store hlease =>
      obtain rfl := Option.some.inj hmatch
      obtain ⟨_, hgrants, hnext, hsignals, _⟩ := lease_eq_ok hlease
      have hrevoked := Lease.revoked_congr (l := l) hgrants (hsignals _).1 (hsignals _).2.1
      exact ⟨hl.trans_eq hnext.symm, by rwa [Lease.valid, hrevoked]⟩
  | list username => exact Option.some.inj hstep ▸ hstore _ (storeOp_list ..)
  | dropClone grant => exact Option.some.inj hstep ▸ hstore _ (storeOp_dropClone ..)
  | resolve token => exact Option.some.inj hstep ▸ hstore _ (storeOp_resolve ..)
  | sweep => exact Option.some.inj hstep ▸ hstore _ (storeOp_sweep ..)
  | revoke username id => exact Option.some.inj hstep ▸ hstore _ (storeOp_revoke ..)
  | start v => exact hviewer v _ hstep
  | refuse v => exact hviewer v _ hstep
  | checkExpiry v => exact hviewer v _ hstep
  | checkRevoked v => exact hviewer v _ hstep
  | hand v => exact hviewer v _ hstep
  | written v => exact hviewer v _ hstep
  | fail v => exact hviewer v _ hstep
  | select v arm => exact hviewer v _ hstep
  | leave v => exact hviewer v _ hstep

/-- Once a lease is invalid it is invalid forever. -/
theorem invalid_forever {l : Lease} {as : List Act} (hl : l.grant < s.store.nextId)
    (hinvalid : l.valid s.store s.clock = false) (hrun : sharingSystem.run s as = some s') :
    l.valid s'.store s'.clock = false := by
  have hinv : s'.store.nextId > l.grant ∧ l.valid s'.store s'.clock = false := by
    refine System.run_invariant (I := fun s => l.grant < s.store.nextId ∧
      l.valid s.store s.clock = false) ?_ ⟨hl, hinvalid⟩ hrun
    intro s a s' hI hstep
    exact invalid_step hI.1 hI.2 hstep
  exact hinv.2

/-! ## Revocation -/

/-- A revocation that succeeds removes the user's grant. -/
theorem revoke_eq_true {store : ShareStore} {username : String} {id : ℕ}
    (h : (store.revoke username id).1 = true) :
    (store.revoke username id).2 = store.remove id ∧
      ∃ g ∈ store.grants, g.id = id ∧ g.username = username := by
  rw [ShareStore.revoke] at h ⊢
  split at h
  · next hany =>
    rw [if_pos hany]
    obtain ⟨g, hget, huser⟩ := (Option.any_eq_true _ _).mp hany
    obtain ⟨hmem, hid⟩ := get_eq_some hget
    exact ⟨rfl, g, hmem, hid, by simpa using huser⟩
  · cases h

/-- The viewers of a grant that is revoked hold invalid leases from then on. -/
theorem SharingInv.invalid_of_revoke (h : SharingInv s) {username : String} {id : ℕ}
    (hok : (s.store.revoke username id).1 = true) {v : ℕ} {viewer : Viewer}
    (hv : s.viewers v = some viewer) (hpc : viewer.pc ≠ .returned)
    (hid : viewer.lease.grant = id) (clock : ℕ) :
    viewer.lease.valid (s.store.revoke username id).2 clock = false := by
  obtain ⟨heq, g, hg, hgid, _⟩ := revoke_eq_true hok
  have hgone : g ∉ (s.store.remove id).grants := by
    simp [ShareStore.remove, ShareStore.retain, hgid]
  have hmem := h.subscribed v viewer hv hpc
  rw [hid, ← hgid] at hmem
  have htold := (storeOp_retain s.store fun g => g.id ≠ id).told g hg hgone v hmem
  rw [hgid, ← hid] at htold
  refine valid_eq_false_iff.mpr (.inr ?_)
  rw [heq, Lease.revoked, hid, ShareStore.remove]
  rw [hid] at htold
  rw [htold, Bool.true_or]

/-- The other users' grants stay in the map, and their channels as they are. -/
theorem revoke_others (store : ShareStore) {username : String} {id : ℕ}
    (hok : (store.revoke username id).1 = true) {g : Grant} (hother : g.username ≠ username) :
    (g ∈ (store.revoke username id).2.grants ↔ g ∈ store.grants) ∧
      (g ∈ store.grants → (store.revoke username id).2.signals g.id = store.signals g.id) := by
  obtain ⟨heq, g₀, hg₀, hid₀, huser⟩ := revoke_eq_true hok
  have hne : g ∈ store.grants → g.id ≠ id := by
    rintro hg rfl
    rw [eq_of_id_eq hg₀ hg hid₀] at huser
    exact hother huser
  rw [heq]
  constructor
  · exact ⟨List.mem_of_mem_filter, fun hg => List.mem_filter.mpr ⟨hg, by simpa using hne hg⟩⟩
  · intro hg
    refine if_neg fun hany => ?_
    obtain ⟨g', _, hg'⟩ := List.any_eq_true.mp hany
    simp only [Bool.and_eq_true, decide_eq_true_eq, Bool.not_eq_true', decide_eq_false_iff_not,
      not_not] at hg'
    exact hne hg (hg'.1.symm.trans hg'.2)

/-- **No shared frame after a share ends**, in any run. -/
theorem no_frame_after_end (hs : sharingSystem.Reachable s) :
    NoFrameAfterEnd s ∧
    (∀ v viewer as s', s.viewers v = some viewer → viewer.lease.valid s.store s.clock = false →
      sharingSystem.run s as = some s' → viewer.lease.valid s'.store s'.clock = false) ∧
    ∀ username id s', sharingStep s (.revoke username id) = some s' →
      (s.store.revoke username id).1 = true →
      (∀ v viewer, s.viewers v = some viewer → viewer.pc ≠ .returned → viewer.lease.grant = id →
        viewer.lease.valid s'.store s'.clock = false) ∧
      ∀ g : Grant, g.username ≠ username →
        (g ∈ s'.store.grants ↔ g ∈ s.store.grants) ∧
        (g ∈ s.store.grants → s'.store.signals g.id = s.store.signals g.id) := by
  have hinv := sharingInv_of_reachable hs
  refine ⟨noFrameAfterEnd_of_inv hinv, fun v viewer as s' hv hinvalid hrun => ?_,
    fun username id s' hstep hok => ?_⟩
  · exact invalid_forever (hinv.leased v viewer hv) hinvalid hrun
  · obtain rfl := Option.some.inj hstep
    exact ⟨fun v viewer hv hpc hid => hinv.invalid_of_revoke hok hv hpc hid s.clock,
      fun g hother => revoke_others s.store hok hother⟩

end

/-! ## A viewer and a revocation -/

/-- A viewer gets its hello, and the replay passes its checks before the link is revoked. -/
def viewerRun : List Act :=
  [.create 0 "alice" 2 60, .lease ⟨0, "alice", 2, 60⟩ 0, .start 0, .checkExpiry 0, .checkRevoked 0,
    .hand 0, .written 0, .checkExpiry 0, .checkRevoked 0, .revoke "alice" 0, .hand 0]

theorem no_frame_after_end_viewerRun :
    ∃ s, sharingSystem.run (emptySharing 0) viewerRun = some s ∧ NoFrameAfterEnd s ∧
      s.history = [.tick 0, .expiryChecked 0, .revocationChecked 0, .handed 0 .hello,
        .expiryChecked 0, .revocationChecked 0, .ended 0, .handed 0 .replay] := by
  have hrun : (sharingSystem.run (emptySharing 0) viewerRun).map Sharing.history =
      some [.tick 0, .expiryChecked 0, .revocationChecked 0, .handed 0 .hello,
        .expiryChecked 0, .revocationChecked 0, .ended 0, .handed 0 .replay] := by decide
  obtain ⟨s, hs, hhistory⟩ := Option.map_eq_some_iff.mp hrun
  have hempty : sharingSystem.Reachable (emptySharing 0) := .init ⟨0, rfl⟩
  exact ⟨s, hs, (no_frame_after_end (System.Reachable.run hempty hs)).1, hhistory⟩

end Webshell.Share
