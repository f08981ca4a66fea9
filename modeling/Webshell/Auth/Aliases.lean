import Webshell.Auth.EnrolledOnce
import Webshell.Auth.Lockout
import Webshell.Auth.OnDisk
import Webshell.Share.Caps
import Webshell.Terminals.OneShell

/-!
# Identities do not alias

The stores of the server know an identity by the text that it is written as: the pools of its
shells, its share grants, its sessions, its strikes and its replay guard, and the two files. No two
identities have one text, so what is done for one of them leaves what belongs to another alone.

## Main definitions

- `Identity.username`: the text, as the terminals and the shares have it
- `ShellsApart`, `GrantsApart`, `LoginsApart`: what is kept apart in a state of each component

## Main results

- `identities_never_alias`: texts and identities are one to one, and nothing that is stored under a
  text is mixed up
-/

namespace Webshell

open Transition
open Text (Lowercase)

/-! ## The grants of a user -/

namespace Share

def ShareStore.grantsOf (s : ShareStore) (username : String) : List Grant :=
  s.grants.filter fun g => g.username = username

section
variable {s s' : ShareStore} {username username' : String} {now : ℕ}

theorem grantsOf_pruneExpired (s : ShareStore) (username : String) (now : ℕ) :
    (s.pruneExpired now).1.grantsOf username =
      (s.grantsOf username).filter fun g => now < g.expiresAt :=
  List.filter_comm ..

theorem grantsOf_insert (h : username' ≠ username) (index expiresAt : ℕ) :
    (s.insert username index expiresAt).grantsOf username' = s.grantsOf username' := by
  have hnew : List.filter (fun g => decide (g.username = username'))
      [(⟨s.nextId, username, index, expiresAt⟩ : Grant)] = [] :=
    List.filter_cons_of_neg (by simpa using Ne.symm h)
  rw [ShareStore.grantsOf, ShareStore.insert, List.filter_append, hnew, List.append_nil,
    ShareStore.grantsOf]

theorem grantsOf_create (h : username' ≠ username) (before now index ttl : ℕ) :
    (s.create before now username index ttl).2.grantsOf username' =
      (s.grantsOf username').filter fun g => now < g.expiresAt := by
  rw [← grantsOf_pruneExpired]
  obtain ⟨-, heq⟩ | ⟨-, heq⟩ := create_cases s before now username index ttl
  · rw [heq]
    rfl
  · rw [heq]
    exact grantsOf_insert h ..

theorem grantsOf_list (s : ShareStore) (username username' : String) (now : ℕ) :
    (s.list username now).2.grantsOf username' =
      (s.grantsOf username').filter fun g => now < g.expiresAt :=
  grantsOf_pruneExpired s username' now

theorem username_of_mem_list {g : Grant} (h : g ∈ (s.list username now).1) :
    g.username = username :=
  of_decide_eq_true (List.mem_filter.mp h).2

/-- Only a grant of the user is revoked. -/
theorem grantsOf_revoke (h : username' ≠ username) (id : ℕ) :
    (s.revoke username id).2.grantsOf username' = s.grantsOf username' := by
  rw [ShareStore.revoke]
  split
  next hmine =>
    obtain ⟨g, hget, hname⟩ := (Option.any_eq_true _ _).mp hmine
    obtain ⟨hg, rfl⟩ := get_eq_some hget
    rw [ShareStore.grantsOf, ShareStore.remove, ShareStore.retain, List.filter_filter]
    refine List.filter_congr fun g' hg' => ?_
    by_cases hother : g'.username = username'
    · have hid : g'.id ≠ g.id := by
        intro hid
        rw [eq_of_id_eq hg' hg hid, of_decide_eq_true hname] at hother
        exact h hother.symm
      simp only [hother, hid, ne_eq, not_false_eq_true, decide_true, Bool.and_self]
    · simp only [hother, decide_false, Bool.false_and]
  · rfl

/-- A lease is on a grant of the user that it names. -/
theorem username_of_lease {token : Token} {viewer : ℕ} {l : Lease} {g : Grant}
    (h : s.lease token now viewer = .ok (l, s')) (hg : g ∈ s.grants) (hid : g.id = l.grant) :
    g.username = l.username := by
  obtain ⟨-, heq⟩ | ⟨-, -, heq⟩ | ⟨⟨-, g', hg', hid', hmatches⟩, -, heq⟩ :=
    lease_cases s token now viewer
  · cases heq.symm.trans h
  · cases heq.symm.trans h
  · cases heq.symm.trans h
    obtain rfl := eq_of_id_eq hg hg' (hid.trans hid'.symm)
    simp only [Token.matches, Bool.and_eq_true, decide_eq_true_eq] at hmatches
    exact hmatches.1.1

theorem username_of_resolve {token : Token} {index : ℕ} {g : Grant}
    (h : (s.resolve token now).1 = some (username, index)) (hg : g ∈ s.grants)
    (hid : g.id = token.id) : g.username = username := by
  rw [ShareStore.resolve] at h
  split at h
  · cases h
  · split at h
    · cases h
    next g' hget =>
      obtain ⟨hg', hid'⟩ := get_eq_some hget
      obtain rfl := eq_of_id_eq hg hg' (hid.trans hid'.symm)
      dsimp only at h
      split at h
      next hmatches =>
        simp only [Token.matches, Bool.and_eq_true, decide_eq_true_eq] at hmatches
        obtain ⟨rfl, -⟩ := Prod.mk.inj (Option.some.inj h)
        exact hmatches.1.1
      · cases h

end

end Share

variable [Lowercase]

/-- A session's username, as the terminals and the shares have it. -/
def Identity.username (who : Identity) : String := String.ofList who.display

theorem Identity.username_injective : Function.Injective Identity.username :=
  fun _ _ h => Identity.display_injective (String.ofList_injective h)

/-! ## Shells -/

section
open Terminals

/-- Two identities have no pool in common, and a step for one of them leaves the pool of the other
and every slot in it as it was. -/
structure ShellsApart {P : Type} [Vt100 P] (s : Terminals.State P) : Prop where
  pools : ∀ (who who' : Identity) p,
    s.pools who.username = some p → s.pools who'.username = some p → who = who'
  step : ∀ a s', terminalsStep s a = some s' →
    ∀ (who who' : Identity) i, s.target a = some (who.username, i) → who' ≠ who →
      s'.userPool who'.username = s.userPool who'.username ∧
        ∀ j, s'.view who'.username j = s.view who'.username j

theorem shellsApart_of_reachable {P : Type} [Vt100 P] {s : Terminals.State P}
    (h : (terminalsSystem P).Reachable s) : ShellsApart s where
  pools who who' p hp hp' := Identity.username_injective ((poolInv_of_reachable h).inj _ _ p hp hp')
  step a s' hstep who who' i htarget hne := by
    have hframe := frame_of_step h hstep
    have hother : ∀ j, s.target a ≠ some (who'.username, j) := by
      intro j heq
      obtain ⟨hname, -⟩ := Prod.mk.inj (Option.some.inj (htarget.symm.trans heq))
      exact hne (Identity.username_injective hname).symm
    exact ⟨hframe.pools _ hother, fun j => hframe.slots _ j (hother j)⟩

end

/-! ## Shares -/

section
open Share

/-- What is done with the grants of one identity leaves those of another as they are, unless they
have expired, and shows none of them. -/
structure GrantsApart (s : ShareStore) (who who' : Identity) : Prop where
  create : ∀ before now index ttl,
    (s.create before now who.username index ttl).2.grantsOf who'.username =
      (s.grantsOf who'.username).filter fun g => now < g.expiresAt
  list : ∀ now, (s.list who.username now).2.grantsOf who'.username =
    (s.grantsOf who'.username).filter fun g => now < g.expiresAt
  listed : ∀ now, ∀ g ∈ (s.list who.username now).1, g.username ≠ who'.username
  revoke : ∀ id,
    (s.revoke who.username id).2.grantsOf who'.username = s.grantsOf who'.username
  lease : ∀ token now viewer l s', s.lease token now viewer = .ok (l, s') →
    l.username = who.username → ∀ g ∈ s.grants, g.id = l.grant → g.username ≠ who'.username
  resolve : ∀ token now index, (s.resolve token now).1 = some (who.username, index) →
    ∀ g ∈ s.grants, g.id = token.id → g.username ≠ who'.username

theorem grantsApart_of_ne (s : ShareStore) {who who' : Identity} (h : who ≠ who') :
    GrantsApart s who who' where
  create := grantsOf_create fun heq => h (Identity.username_injective heq).symm
  list := grantsOf_list s _ _
  listed now g hg heq := by
    rw [username_of_mem_list hg] at heq
    exact h (Identity.username_injective heq)
  revoke := grantsOf_revoke fun heq => h (Identity.username_injective heq).symm
  lease token now viewer l s' hlease hl g hg hid heq := by
    rw [username_of_lease hlease hg hid, hl] at heq
    exact h (Identity.username_injective heq)
  resolve token now index hresolve g hg hid heq := by
    rw [username_of_resolve hresolve hg hid] at heq
    exact h (Identity.username_injective heq)

end

/-! ## Logins -/

namespace Login

/-- The submission to the code form that a handler works on. -/
def Pc.attempt : Pc → Option MfaAttempt
  | .enterMfa m | .checkLock m | .readRecord m | .strike m => some m
  | .verifyCode c | .acceptCode c | .enroll c | .revokeDevices c | .clearStrikes c | .mfaLogin c =>
    some c.toMfaAttempt
  | _ => none

/-- A session under the text of an identity is from a login of that identity. A submission counts
under the text of the identity that it is for, and no other step touches what is counted there,
until the server starts again with nothing counted. -/
structure LoginsApart (crypto : Crypto) (past : Past) (s : Server) : Prop where
  session : ∀ id c, s.sessions.Known id c → ∀ who : Identity, c.username = who.display →
    (c.authenticated = true → LoggedIn crypto who id past) ∧
      (c.mfaPending = true → Pending crypto who id past)
  attempt : ∀ r m, (s.runs r).attempt = some m → m.username = m.identity.display
  step : ∀ a s', loginStep crypto s a = some s' → a.isRestart = false → ∀ who : Identity,
    (∀ r written m, a = .step r written → (s.runs r).attempt = some m → m.identity ≠ who) →
      s'.strikes.lookup who.display = s.strikes.lookup who.display ∧
        s'.otpUsed.lookup who.display = s.otpUsed.lookup who.display
  restart : ∀ a s', loginStep crypto s a = some s' → a.isRestart = true →
    s'.strikes = ∅ ∧ s'.otpUsed = ∅

section
variable {crypto : Crypto} {past : Past} {s s' : Server} {a : Act} {r : ℕ} {who : Identity}

theorem username_of_attempt (h : (loginSystem crypto).Trace past s) {m : MfaAttempt}
    (hm : (s.runs r).attempt = some m) : m.username = m.identity.display := by
  have hrun := (inv_of_trace h).runs r
  have hreport := reportOk_of_trace h r
  generalize s.runs r = pc at *
  cases pc <;> cases hm
  case strike => exact hreport
  case enterMfa => exact hrun.username
  all_goals exact hrun.1.username

theorem attempt_of_reportsOn {pc : Pc} (h : pc.reportsOn = some who) :
    ∃ m, pc.attempt = some m ∧ m.identity = who := by
  cases pc <;> cases h
  case strike m => exact ⟨m, rfl, rfl⟩
  case clearStrikes c => exact ⟨c.toMfaAttempt, rfl, rfl⟩

/-- A code is spent in the guard of the identity that it is for. -/
theorem lookup_otpUsedAfter (h : (loginSystem crypto).Trace past s)
    (hne : ∀ m, (s.runs r).attempt = some m → m.identity ≠ who) :
    (s.otpUsedAfter (s.runs r)).lookup who.display = s.otpUsed.lookup who.display := by
  cases hpc : s.runs r with
  | acceptCode c =>
    have hattempt : (s.runs r).attempt = some c.toMfaAttempt := by rw [hpc]; rfl
    refine AList.lookup_insert_ne fun heq => hne _ hattempt ?_
    rw [username_of_attempt h hattempt] at heq
    exact (Identity.display_injective heq).symm
  | _ => rfl

theorem counted_of_step (h : (loginSystem crypto).Trace past s)
    (hs : loginStep crypto s a = some s') (ha : a.isRestart = false)
    (hne : ∀ r written m, a = .step r written → (s.runs r).attempt = some m → m.identity ≠ who) :
    s'.strikes.lookup who.display = s.strikes.lookup who.display ∧
      s'.otpUsed.lookup who.display = s.otpUsed.lookup who.display := by
  have hinv := inv_of_trace h
  obtain ⟨r, written, rfl, hstep⟩ | ⟨hquiet, hnot⟩ := codes_of_step hinv hs ha
  · have hattempt : ∀ m, (s.runs r).attempt = some m → m.identity ≠ who :=
      fun m hm => hne r written m rfl hm
    constructor
    · rw [hstep.strikes]
      refine lookup_strikesAfter hinv (reportOk_of_trace h r) fun hreports => ?_
      obtain ⟨m, hm, hwho⟩ := attempt_of_reportsOn hreports
      exact hattempt m hm hwho
    · rw [(memory_of_advance hs).1]
      exact lookup_otpUsedAfter h hattempt
  · rw [hquiet.strikes, (memory_of_step hs ha hnot).1]
    exact ⟨rfl, rfl⟩

theorem loginsApart_of_trace (h : (loginSystem crypto).Trace past s) :
    LoginsApart crypto past s where
  session id c hknown who hwho := by
    obtain ⟨-, hjustified⟩ := (inv_of_trace h).known id c hknown
    constructor
    · intro hauth
      obtain ⟨who', hwho', hlogged⟩ := hjustified.authenticated hauth
      rwa [Identity.display_injective (hwho.symm.trans hwho')]
    · intro hmfa
      obtain ⟨who', hwho', hpending⟩ := hjustified.mfaPending hmfa
      rwa [Identity.display_injective (hwho.symm.trans hwho')]
  attempt r m hm := username_of_attempt h hm
  step a s' hs ha who hne := counted_of_step h hs ha hne
  restart a s' hs ha := by
    cases a with
    | restart =>
      obtain rfl := Option.some.inj hs
      exact ⟨rfl, rfl⟩
    | _ => cases ha

/-- A handler of the code form goes on for the identity that the pending session was issued to. -/
theorem mfaSubmit_of_pending {id : ℕ} {session : Session} {form : MfaForm}
    (husername : session.username = who.display) (hsubject : who.subject ≠ [])
    (hpending : session.mfaPending = true) (hcsrf : session.csrf = form.csrf) :
    mfaSubmit (some (id, session)) form =
      .enterMfa ⟨id, who.display, who, form.otp, form.seed, form.remember⟩ := by
  have hcurrent : Option.filter (fun c : ℕ × Session => c.2.mfaPending) (some (id, session)) =
      some (id, session) := Option.filter_some_pos hpending
  rw [mfaSubmit, hcurrent]
  simp only [hcsrf, ne_eq, not_true_eq_false, if_false, husername,
    Identity.parse_display_self hsubject]

end

end Login

/-! ## All of them -/

/-- An identity and its text determine each other, and normalizing it again changes nothing. So
shells, grants and logins that are kept under the text are kept apart, and what the two files say of
an identity is read back for that identity. -/
theorem identities_never_alias (P : Type) [Vt100 P] (crypto : Login.Crypto) :
    (∀ who : Identity, who.subject ≠ [] → Identity.parse who.display = some who) ∧
    (∀ who : Identity, Identity.new who.provider who.subject = who) ∧
    (∀ who who' : Identity, who.display = who'.display ↔ who = who') ∧
    (∀ s, (Terminals.terminalsSystem P).Reachable s → ShellsApart s) ∧
    (∀ (s : Share.ShareStore) (who who' : Identity), who ≠ who' → GrantsApart s who who') ∧
    (∀ past s, (Login.loginSystem crypto).Trace past s → Login.LoginsApart crypto past s) ∧
    (∀ (who : Identity) id (session : Session) (form : Login.MfaForm),
      who.subject ≠ [] → session.username = who.display → session.mfaPending = true →
        session.csrf = form.csrf → Login.mfaSubmit (some (id, session)) form =
          .enterMfa ⟨id, who.display, who, form.otp, form.seed, form.remember⟩) ∧
    (∀ s : EnrollmentStore, (∀ id ∈ s, id.subject ≠ []) →
      ∃ s', EnrollmentStore.ofFile s.toFile = some s' ∧ ∀ id, s'.lookup id = s.lookup id) ∧
    (∀ (s : DeviceStore) now, (∀ token d, s.lookup token = some d → d.identity.subject ≠ []) →
      ∃ s', DeviceStore.ofFile s.toFile now = some s' ∧
        ∀ token, s'.lookup token = (s.live now).lookup token) :=
  ⟨fun _ h => Identity.parse_display_self h, Identity.new_subject,
    fun _ _ => Identity.display_injective.eq_iff, fun _ h => shellsApart_of_reachable h,
    fun s _ _ h => grantsApart_of_ne s h, fun _ _ h => Login.loginsApart_of_trace h,
    fun _ _ _ _ hsubject husername hpending hcsrf =>
      Login.mfaSubmit_of_pending husername hsubject hpending hcsrf,
    EnrollmentStore.ofFile_toFile, fun s now h => DeviceStore.ofFile_toFile s h now⟩

end Webshell
