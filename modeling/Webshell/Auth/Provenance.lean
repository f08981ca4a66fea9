import Webshell.Auth.Login
import Webshell.Lib.History

/-!
# Where sessions come from

The steps of a run that pass a factor or issue a session, and the invariant that ties what the
server knows to them: every session that is logged in or waits for a code, in memory or in a file,
and every handler that is on its way to issue one.

## Main definitions

- `PassesFirst`, `Trusted`, `ShowsCode`, `SpendsCode`: the steps that pass a factor
- `BeginsMfa`, `LogsIn`: the steps that issue a session
- `Pending`, `LoggedIn`: a session of an identity, with everything that had to come before it
- `Inv`: the invariant

## Main results

- `inv_of_trace`: it holds in every run, across restarts
-/

namespace Webshell.Login

open Transition History
open Text (Lowercase)

variable [Lowercase]

/-- The steps taken so far, each with the state it was taken from. -/
abbrev Past := List (Server × Act)

/-! ## Steps that matter -/

section
variable (crypto : Crypto) (r : ℕ) (who : Identity)

/-- Handler `r` finds the password or Google's answer right, for an identity on the allowlist. -/
inductive PassesFirst : Server × Act → Prop
  | password {s written c password hash} :
      s.runs r = .verifyPassword c password → c.who = who →
      s.config.localPassword who = some hash →
      LocalAuth.verify crypto.hashers hash password = some true →
      s.config.permits who = true → PassesFirst (s, .step r written)
  | google {s id flow clientId device answer verified} :
      s.runs r = .exchange id flow clientId device →
      Oidc.exchange answer clientId flow s.clock.unix = some verified → verified.identity = who →
      s.config.permits who = true → PassesFirst (s, .answer r answer)

/-- Handler `r` presents a live device of the identity, bound to its current secret. -/
inductive Trusted : Server × Act → Prop
  | mk {s written c token enrolledAt device} :
      s.runs r = .authorize c token enrolledAt → c.who = who →
      s.devices.lookup token = some device → device.identity = who →
      device.expired s.clock.unix = false →
      s.enrollment.currentEnrolledAt who = some device.enrolledAt → Trusted (s, .step r written)

/-- Handler `r` finds that the text is a current code of the secret. -/
inductive ShowsCode (secret otp : Text) : Server × Act → Prop
  | mk {s written c} :
      s.runs r = .verifyCode c → c.identity = who → c.secret = secret → c.otp = otp →
      Totp.validSeed secret = true →
      Totp.verify crypto.hmacSha1 secret otp s.clock.unix = true →
      ShowsCode secret otp (s, .step r written)

/-- The replay guard of the identity lets handler `r` use the code. -/
inductive SpendsCode (otp : Text) : Server × Act → Prop
  | mk {s written c} :
      s.runs r = .acceptCode c → c.identity = who → c.otp = otp →
      (Totp.acceptAt ((s.otpUsed.lookup who.display).getD []) otp s.clock.unix).1 = true →
      SpendsCode otp (s, .step r written)

/-- Handler `r` replaces the session `old` by one under the token `id` that waits for a code. -/
inductive BeginsMfa (old id : ℕ) : Server × Act → Prop
  | mk {s written c} :
      s.runs r = .beginMfa c → c.id = old → c.who = who → s.nextToken = id →
      BeginsMfa old id (s, .step r written)

/-- Handler `r` replaces the session `old` by one under the token `id` that is logged in. -/
inductive LogsIn (old id : ℕ) : Server × Act → Prop
  | direct {s written c} :
      s.runs r = .login c → c.id = old → c.who = who → s.nextToken = id →
      LogsIn old id (s, .step r written)
  | code {s written c} :
      s.runs r = .mfaLogin c → c.id = old → c.identity = who → s.nextToken = id →
      LogsIn old id (s, .step r written)

end

/-! ## What had to come before -/

section
variable (crypto : Crypto)

/-- The session under `id` was issued to a handler that had passed the first factor. -/
def Pending (who : Identity) (id : ℕ) (past : Past) : Prop :=
  Once (fun before e => ∃ r old, BeginsMfa r who old id e ∧
    Once (fun _ q => PassesFirst crypto r who q) before) past

/-- What entitles handler `r` to log `who` in, in a state `s`: the first factor in the same
handler, with no second one required or a trusted device; or else the session it started from, and
a code of the secret that `who` has. -/
def Entitled (r old : ℕ) (who : Identity) (s : Server) (before : Past) : Prop :=
  (Once (fun _ q => PassesFirst crypto r who q) before ∧
      (s.config.mfaRequired = false ∨ Once (fun _ q => Trusted r who q) before)) ∨
    (Pending crypto who old before ∧ ∃ secret otp, s.enrollment.secret who = some secret ∧
      Once (fun _ q => ShowsCode crypto r who secret otp q) before ∧
      Once (fun _ q => SpendsCode r who otp q) before)

/-- No session had this id so far, in memory or in a file. -/
def Fresh (id : ℕ) (past : Past) : Prop := ∀ q ∈ past, ∀ c, ¬ q.1.sessions.Known id c

/-- The session under `id` was issued, under a fresh id, to a handler that was entitled to it. -/
def LoggedIn (who : Identity) (id : ℕ) (past : Past) : Prop :=
  Once (fun before e => ∃ r old, LogsIn r who old id e ∧ Entitled crypto r old who e.1 before ∧
    Fresh id (before ++ [e])) past

/-- A login that memory or a file knows of has come about as it should. -/
structure Justified (past : Past) (id : ℕ) (c : Credential) : Prop where
  authenticated : c.authenticated = true →
    ∃ who : Identity, c.username = who.display ∧ LoggedIn crypto who id past
  mfaPending : c.mfaPending = true →
    ∃ who : Identity, c.username = who.display ∧ Pending crypto who id past

variable (past : Past) (s : Server) (r : ℕ)

/-- A handler that has passed the first factor, with `n` the next token. -/
structure FirstOk (n : ℕ) (c : Candidate) : Prop where
  id : c.id < n
  passed : Once (fun _ q => PassesFirst crypto r c.who q) past

/-- A handler that was given a pending session, with `n` the next token. -/
structure CodeOk (n : ℕ) (m : MfaAttempt) : Prop where
  id : m.id < n
  username : m.username = m.identity.display
  pending : Pending crypto m.identity m.id past

/-- A handler that holds the bucket, with what it has read of the record. -/
structure Holds (c : MfaCheck) : Prop where
  bucket : s.buckets (mfaBucket c.identity) = some r
  secret : s.enrollment.secret c.identity = if c.enrolling then none else some c.secret

/-- A handler whose code has verified, and has been spent. -/
structure Spent (c : MfaCheck) : Prop where
  shows : Once (fun _ q => ShowsCode crypto r c.identity c.secret c.otp q) past
  spends : Once (fun _ q => SpendsCode r c.identity c.otp q) past

/-- What a handler on its way to issue a session rests on. -/
def RunOk : Pc → Prop
  | .enterLocal c _ | .verifyPassword c _ => c.id < s.nextToken ∧ s.config.permits c.who = true
  | .clearOauth id _ _ | .exchange id _ _ _ => id < s.nextToken
  | .pinSubject c _ | .readTrust c _ | .forgetDevice c _ | .beginMfa c =>
    FirstOk crypto past r s.nextToken c
  | .authorize c _ enrolledAt =>
    FirstOk crypto past r s.nextToken c ∧ s.enrollment.currentEnrolledAt c.who = some enrolledAt
  | .login c =>
    FirstOk crypto past r s.nextToken c ∧
      (s.config.mfaRequired = false ∨ Once (fun _ q => Trusted r c.who q) past)
  | .enterMfa m => CodeOk crypto past s.nextToken m
  | .checkLock m | .readRecord m =>
    CodeOk crypto past s.nextToken m ∧ s.buckets (mfaBucket m.identity) = some r
  | .verifyCode c => CodeOk crypto past s.nextToken c.toMfaAttempt ∧ Holds s r c
  | .acceptCode c =>
    CodeOk crypto past s.nextToken c.toMfaAttempt ∧ Holds s r c ∧
      Once (fun _ q => ShowsCode crypto r c.identity c.secret c.otp q) past
  | .enroll c =>
    CodeOk crypto past s.nextToken c.toMfaAttempt ∧ Holds s r c ∧ c.enrolling = true ∧
      Spent crypto past r c
  | .revokeDevices c | .clearStrikes c | .mfaLogin c =>
    CodeOk crypto past s.nextToken c.toMfaAttempt ∧ s.enrollment.secret c.identity = some c.secret ∧
      Spent crypto past r c
  | _ => True

/-- The invariant of a run. -/
structure Inv : Prop where
  known : ∀ id c, s.sessions.Known id c → id < s.nextToken ∧ Justified crypto past id c
  /-- Tokens only grow, so an id that was in use is not drawn again. -/
  earlier : ∀ q ∈ past, ∀ id c, q.1.sessions.Known id c → id < s.nextToken
  runs : ∀ r, RunOk crypto past s r (s.runs r)

end

/-! ## What the past says stays said -/

section
variable {crypto : Crypto} {past : Past} {e : Server × Act} {s s' : Server} {r id n n' : ℕ}
  {who : Identity}

theorem Justified.append {c : Credential} (h : Justified crypto past id c) (new : Past) :
    Justified crypto (past ++ new) id c := by
  refine ⟨fun ha => ?_, fun hm => ?_⟩
  · obtain ⟨who, husername, hlogged⟩ := h.authenticated ha
    exact ⟨who, husername, hlogged.append new⟩
  · obtain ⟨who, husername, hpending⟩ := h.mfaPending hm
    exact ⟨who, husername, hpending.append new⟩

/-- A session without a login needs no past. -/
theorem justified_anonymous : Justified crypto past id ⟨false, false, []⟩ := ⟨nofun, nofun⟩

theorem FirstOk.append {c : Candidate} (h : FirstOk crypto past r n c) (hn : n ≤ n')
    (new : Past) : FirstOk crypto (past ++ new) r n' c :=
  ⟨h.id.trans_le hn, h.passed.append new⟩

theorem CodeOk.append {m : MfaAttempt} (h : CodeOk crypto past n m) (hn : n ≤ n')
    (new : Past) : CodeOk crypto (past ++ new) n' m :=
  ⟨h.id.trans_le hn, h.username, h.pending.append new⟩

theorem Spent.append {c : MfaCheck} (h : Spent crypto past r c) (new : Past) :
    Spent crypto (past ++ new) r c :=
  ⟨h.shows.append new, h.spends.append new⟩

/-! ## What a step leaves of the other handlers -/

/-- A step that is not the one of handler `r`, as that handler sees it. -/
structure Frame (r : ℕ) (s s' : Server) : Prop where
  runs : s'.runs r = s.runs r
  config : s'.config = s.config
  nextToken : s.nextToken ≤ s'.nextToken
  buckets : ∀ b, s.buckets b = some r → s'.buckets b = some r
  enrolled : ∀ who secret, s.enrollment.secret who = some secret →
    s'.enrollment.secret who = some secret
  unenrolled : ∀ who, s.buckets (mfaBucket who) = some r → s.enrollment.secret who = none →
    s'.enrollment.secret who = none
  enrolledAt : ∀ who t, s.enrollment.currentEnrolledAt who = some t →
    s'.enrollment.currentEnrolledAt who = some t

theorem Frame.trans {s'' : Server} (h : Frame r s s') (h' : Frame r s' s'') : Frame r s s'' where
  runs := h'.runs.trans h.runs
  config := h'.config.trans h.config
  nextToken := h.nextToken.trans h'.nextToken
  buckets b hb := h'.buckets b (h.buckets b hb)
  enrolled who secret hw := h'.enrolled who secret (h.enrolled who secret hw)
  unenrolled who hb hw := h'.unenrolled who (h.buckets _ hb) (h.unenrolled who hb hw)
  enrolledAt who t hw := h'.enrolledAt who t (h.enrolledAt who t hw)

theorem Holds.frame {c : MfaCheck} (h : Holds s r c) (hf : Frame r s s') : Holds s' r c := by
  refine ⟨hf.buckets _ h.bucket, ?_⟩
  have hsecret := h.secret
  split at hsecret
  next henrolling =>
    rw [if_pos henrolling]
    exact hf.unenrolled _ h.bucket hsecret
  next henrolling =>
    rw [if_neg henrolling]
    exact hf.enrolled _ _ hsecret

/-- A handler that does not step keeps what it rests on. -/
theorem RunOk.frame {pc : Pc} (h : RunOk crypto past s r pc) (hf : Frame r s s') (new : Past) :
    RunOk crypto (past ++ new) s' r pc := by
  have hn := hf.nextToken
  cases pc with
  | enterLocal c _ | verifyPassword c _ => exact ⟨h.1.trans_le hn, by rw [hf.config]; exact h.2⟩
  | clearOauth | exchange => exact Nat.lt_of_lt_of_le h hn
  | pinSubject | readTrust | forgetDevice | beginMfa => exact FirstOk.append h hn new
  | authorize c _ enrolledAt => exact ⟨h.1.append hn new, hf.enrolledAt _ _ h.2⟩
  | login c =>
    refine ⟨h.1.append hn new, ?_⟩
    rw [hf.config]
    exact h.2.imp_right fun htrusted => htrusted.append new
  | enterMfa => exact CodeOk.append h hn new
  | checkLock | readRecord => exact ⟨h.1.append hn new, hf.buckets _ h.2⟩
  | verifyCode c => exact ⟨h.1.append hn new, h.2.frame hf⟩
  | acceptCode c => exact ⟨h.1.append hn new, h.2.1.frame hf, h.2.2.append new⟩
  | enroll c => exact ⟨h.1.append hn new, h.2.1.frame hf, h.2.2.1, h.2.2.2.append new⟩
  | revokeDevices | clearStrikes | mfaLogin =>
    exact ⟨h.1.append hn new, hf.enrolled _ _ h.2.1, h.2.2.append new⟩
  | _ => trivial

/-- One step, from what it does to the sessions and to the handlers. -/
theorem Inv.step (h : Inv crypto past s) (he : e.1 = s) (hn : s.nextToken ≤ s'.nextToken)
    (hknown : ∀ id c, s'.sessions.Known id c → s.sessions.Known id c ∨
      (id < s'.nextToken ∧ Justified crypto (past ++ [e]) id c))
    (hruns : ∀ r, Frame r s s' ∨ RunOk crypto (past ++ [e]) s' r (s'.runs r)) :
    Inv crypto (past ++ [e]) s' := by
  refine ⟨fun id c hk => ?_, fun q hq id c hk => ?_, fun r => ?_⟩
  · obtain hold | hnew := hknown id c hk
    · obtain ⟨hlt, hj⟩ := h.known id c hold
      exact ⟨hlt.trans_le hn, hj.append [e]⟩
    · exact hnew
  · obtain hq | hq := List.mem_append.mp hq
    · exact (h.earlier q hq id c hk).trans_le hn
    · rw [List.mem_singleton.mp hq, he] at hk
      exact (h.known id c hk).1.trans_le hn
  · obtain hf | hr := hruns r
    · rw [hf.runs]
      exact (h.runs r).frame hf [e]
    · exact hr

/-! ## The steps of a handler -/

/-- A step of handler `r` that enrolls nobody. -/
structure Apart (r : ℕ) (s s' : Server) : Prop where
  config : s'.config = s.config
  nextToken : s.nextToken ≤ s'.nextToken
  buckets : ∀ b r', r' ≠ r → s.buckets b = some r' → s'.buckets b = some r'
  runs : ∀ r', r' ≠ r → s'.runs r' = s.runs r'
  secret : ∀ who, s'.enrollment.secret who = s.enrollment.secret who
  enrolledAt : ∀ who, s'.enrollment.currentEnrolledAt who = s.enrollment.currentEnrolledAt who

theorem apart_stores {sessions : SessionStore} {devices : DeviceStore}
    {otpUsed : Table Text Totp.Recent} {strikes : Table Text MfaStrikes} {n : ℕ}
    (hn : s.nextToken ≤ n) :
    Apart r s { s with
      sessions := sessions
      devices := devices
      otpUsed := otpUsed
      strikes := strikes
      nextToken := n } :=
  ⟨rfl, hn, fun _ _ _ h => h, fun _ _ => rfl, fun _ => rfl, fun _ => rfl⟩

theorem apart_refl (r : ℕ) (s : Server) : Apart r s s := apart_stores le_rfl

theorem Apart.goto (h : Apart r s s') (pc : Pc) : Apart r s (s'.goto r pc) :=
  ⟨h.config, h.nextToken, h.buckets,
    fun r' hr => (Function.update_of_ne hr ..).trans (h.runs r' hr), h.secret, h.enrolledAt⟩

theorem Apart.leave (h : Apart r s s') : Apart r s (s'.leave r) := by
  refine ⟨h.config, h.nextToken, fun b r' hr hb => ?_, h.runs, h.secret, h.enrolledAt⟩
  have hb' := h.buckets b r' hr hb
  have hne : s'.buckets b ≠ some r := by
    rw [hb']
    exact fun heq => hr (Option.some.inj heq)
  exact (if_neg hne).trans hb'

theorem Apart.frame (h : Apart r s s') {r' : ℕ} (hr : r' ≠ r) : Frame r' s s' :=
  ⟨h.runs r' hr, h.config, h.nextToken, fun b hb => h.buckets b r' hr hb,
    fun who _ hw => (h.secret who).trans hw, fun who _ hw => (h.secret who).trans hw,
    fun who _ hw => (h.enrolledAt who).trans hw⟩

variable (crypto past e r s s') in
/-- What is to be shown of a step of handler `r`. -/
structure StepOk : Prop where
  nextToken : s.nextToken ≤ s'.nextToken
  known : ∀ id c, s'.sessions.Known id c → s.sessions.Known id c ∨
    (id < s'.nextToken ∧ Justified crypto (past ++ [e]) id c)
  absent : ∀ id, id < s.nextToken → s.sessions.inner.lookup id = none →
    s'.sessions.inner.lookup id = none
  others : ∀ r', r' ≠ r → Frame r' s s'
  own : RunOk crypto (past ++ [e]) s' r (s'.runs r)

theorem Inv.stepOk (h : Inv crypto past s) (he : e.1 = s) (hs : StepOk crypto past e s s' r) :
    Inv crypto (past ++ [e]) s' := by
  refine h.step he hs.nextToken hs.known fun r' => ?_
  by_cases hr : r' = r
  · subst hr
    exact .inr hs.own
  · exact .inl (hs.others r' hr)

theorem goto_runs_self (s : Server) (r : ℕ) (pc : Pc) : (s.goto r pc).runs r = pc :=
  Function.update_self ..

variable {t : Server} {pc : Pc}

/-- A step that issues no session. -/
theorem stepOk_goto (ha : Apart r s t) (hk : s.sessions.Keeps t.sessions)
    (hown : RunOk crypto (past ++ [e]) (t.goto r pc) r pc) :
    StepOk crypto past e s (t.goto r pc) r :=
  ⟨ha.nextToken, fun id c h => .inl (hk.known id c h), fun id _ hn => hk.absent id hn,
    fun _ hr => (ha.goto pc).frame hr, by rw [goto_runs_self]; exact hown⟩

/-- A step that issues a session under the next token. -/
theorem stepOk_adds {c : Credential} (ha : Apart r s t)
    (hadds : SessionStore.Adds s.nextToken c s.sessions t.sessions)
    (hlt : s.nextToken < t.nextToken) (hj : Justified crypto (past ++ [e]) s.nextToken c)
    (hown : RunOk crypto (past ++ [e]) (t.goto r pc) r pc) :
    StepOk crypto past e s (t.goto r pc) r := by
  refine ⟨ha.nextToken, fun id c' h => ?_, fun id hid hn => hadds.absent id hid.ne hn,
    fun _ hr => (ha.goto pc).frame hr, by rw [goto_runs_self]; exact hown⟩
  obtain hold | ⟨rfl, rfl⟩ := hadds.known id c' h
  · exact .inl hold
  · exact .inr ⟨hlt, hj⟩

theorem keeps_currentSession (s : Server) (cookie : Option ℕ) (written : Bool) :
    s.sessions.Keeps (s.currentSession cookie written).2 := by
  cases cookie with
  | none => exact .refl _
  | some id => exact SessionStore.keeps_get ..

/-- The session a handler reads is one that the store knows. -/
theorem known_currentSession {cookie : Option ℕ} {written : Bool} {x : Session}
    (h : (s.currentSession cookie written).1 = some (id, x)) :
    s.sessions.Known id x.credential := by
  cases cookie with
  | none => cases h
  | some id' =>
    obtain ⟨y, hy, heq⟩ := Option.map_eq_some_iff.mp h
    obtain ⟨rfl, rfl⟩ := Prod.mk.inj heq
    exact SessionStore.known_of_get hy

theorem lookUp_ok {cookie : Option ℕ} {written : Bool} {next : Option (ℕ × Session) → Pc}
    (hown : RunOk crypto (past ++ [e]) (s.lookUp r cookie written next) r
      (next (s.currentSession cookie written).1)) :
    StepOk crypto past e s (s.lookUp r cookie written next) r :=
  stepOk_goto (apart_stores le_rfl) (keeps_currentSession s cookie written) hown

/-- What a handler decides on from the session of its request. -/
theorem handle_ok (h : Inv crypto past s) {current : Option (ℕ × Session)}
    (hcurrent : ∀ id x, current = some (id, x) → s.sessions.Known id x.credential)
    (hconfig : s'.config = s.config) (hn : s.nextToken ≤ s'.nextToken) (req : Request) :
    RunOk crypto (past ++ [e]) s' r (req.handle s.config current) := by
  cases req with
  | loginPage cookie =>
    simp only [Request.handle, loginPage]
    split <;> try split
    all_goals trivial
  | localLogin form =>
    simp only [Request.handle, localLogin]
    split
    · trivial
    next id x =>
      have hid := (h.known id _ (hcurrent id x rfl)).1
      split
      · trivial
      · split
        · trivial
        · split
          · trivial
          next hpermits =>
            refine ⟨hid.trans_le hn, ?_⟩
            rw [hconfig]
            simpa using hpermits
  | oauthStart form =>
    simp only [Request.handle, oauthStart]
    split
    · trivial
    · split
      · trivial
      · split
        · trivial
        · split <;> trivial
  | oauthCallback query =>
    simp only [Request.handle, oauthCallback]
    split
    · trivial
    · split
      · trivial
      next id x =>
        have hid := (h.known id _ (hcurrent id x rfl)).1
        split
        · trivial
        · split
          · split
            · trivial
            · exact hid.trans_le hn
          · trivial
  | mfaSubmit form =>
    simp only [Request.handle, mfaSubmit]
    split
    · trivial
    next id x hfilter =>
      obtain ⟨hcur, hpending⟩ := Option.filter_eq_some_iff.mp hfilter
      obtain ⟨hid, hj⟩ := h.known id _ (hcurrent id x hcur)
      split
      · trivial
      · split
        · trivial
        next identity hparse =>
          obtain ⟨who, husername, hwho⟩ := hj.mfaPending hpending
          rw [show x.username = who.display from husername] at hparse ⊢
          obtain rfl := Identity.parse_display hparse
          exact ⟨hid.trans_le hn, rfl, hwho.append [e]⟩
  | mfaCancel form =>
    simp only [Request.handle, mfaCancel]
    split
    · trivial
    · split <;> trivial
  | logout form =>
    simp only [Request.handle, requireAuth]
    split <;> trivial
  | privatePage cookie =>
    simp only [Request.handle, requireAuth]
    split <;> trivial

/-- A handler that has just passed the first factor goes on to the second one. -/
theorem firstFactor_ok {c : Candidate} (ha : Apart r s t) (hk : s.sessions.Keeps t.sessions)
    (hid : c.id < s.nextToken)
    (hpassed : Once (fun _ q => PassesFirst crypto r c.who q) (past ++ [e])) :
    StepOk crypto past e s (t.firstFactor r c) r := by
  have hfirst : FirstOk crypto (past ++ [e]) r t.nextToken c :=
    ⟨hid.trans_le ha.nextToken, hpassed⟩
  rw [Server.firstFactor]
  split
  next hmfa =>
    rw [Bool.not_eq_true'] at hmfa
    exact stepOk_goto ha.leave hk ⟨hfirst, .inl hmfa⟩
  · split
    · exact stepOk_goto ha hk hfirst
    · exact stepOk_goto ha.leave hk hfirst

theorem verifyPassword_ok (h : Inv crypto past s) {c : Candidate} {password : Text}
    {written : Bool} (hpc : s.runs r = .verifyPassword c password) :
    StepOk crypto past (s, .step r written) s (s.verifyPassword crypto r c password) r := by
  have hrun := h.runs r
  rw [hpc] at hrun
  rw [Server.verifyPassword]
  split
  next hverify =>
    obtain ⟨hash, hstored, hverify⟩ := Option.bind_eq_some_iff.mp hverify
    exact firstFactor_ok (apart_refl r s) (.refl _) hrun.1
      (once_snoc (.password hpc rfl hstored hverify hrun.2))
  · exact stepOk_goto (apart_refl r s).leave (.refl _) trivial

theorem exchanged_ok (h : Inv crypto past s) {flow : Oidc.Flow} {clientId : Text}
    {device : Option ℕ} {answer : Option Oidc.Claims}
    (hpc : s.runs r = .exchange id flow clientId device) :
    StepOk crypto past (s, .answer r answer) s
      (s.exchanged r id flow clientId device answer) r := by
  have hrun := h.runs r
  rw [hpc] at hrun
  rw [Server.exchanged]
  split
  · exact stepOk_goto (apart_refl r s) (.refl _) trivial
  next verified hexchange =>
    split
    · exact stepOk_goto (apart_refl r s) (.refl _) trivial
    next hpermits =>
      refine stepOk_goto (apart_refl r s) (.refl _) ⟨hrun, once_snoc ?_⟩
      exact .google hpc hexchange rfl (by simpa using hpermits)

theorem pinSubject_ok (h : Inv crypto past s) {c : Candidate} {sub : Text} {written : Bool}
    (hpc : s.runs r = .pinSubject c sub) :
    StepOk crypto past e s (s.pinSubject r c sub written) r := by
  have hrun := h.runs r
  rw [hpc] at hrun
  have ha : Apart r s { s with enrollment := (s.enrollment.pinSubject c.who sub written).2 } :=
    ⟨rfl, le_rfl, fun _ _ _ hb => hb, fun _ _ => rfl, fun _ => EnrollmentStore.secret_pinSubject,
      fun _ => EnrollmentStore.currentEnrolledAt_pinSubject⟩
  simp only [Server.pinSubject]
  split
  · exact firstFactor_ok ha (.refl _) hrun.id (hrun.passed.append [e])
  · exact stepOk_goto ha (.refl _) trivial

theorem readTrust_ok (h : Inv crypto past s) {c : Candidate} {token : ℕ}
    (hpc : s.runs r = .readTrust c token) :
    StepOk crypto past e s (s.readTrust r c token) r := by
  have hrun := h.runs r
  rw [hpc] at hrun
  rw [Server.readTrust]
  split
  · exact stepOk_goto (apart_refl r s).leave (.refl _) (FirstOk.append hrun le_rfl [e])
  next enrolledAt henrolled =>
    exact stepOk_goto (apart_refl r s) (.refl _) ⟨FirstOk.append hrun le_rfl [e], henrolled⟩

/-- The device is compared with the enrollment that was read a step before; it is still the one
in force, since nobody enrolls twice. -/
theorem authorize_ok (h : Inv crypto past s) {c : Candidate} {token enrolledAt : ℕ}
    {written : Bool} (hpc : s.runs r = .authorize c token enrolledAt) :
    StepOk crypto past (s, .step r written) s (s.authorize r c token enrolledAt) r := by
  have hrun := h.runs r
  rw [hpc] at hrun
  obtain ⟨hfirst, henrolled⟩ := hrun
  simp only [Server.authorize]
  split
  next handle hauthorized =>
    obtain ⟨device, hlookup, hwho, hlive, hbound⟩ := DeviceStore.authorize_eq_some hauthorized
    refine stepOk_goto (apart_stores le_rfl).leave (.refl _)
      ⟨hfirst.append le_rfl [_], .inr (once_snoc ?_)⟩
    exact .mk hpc rfl hlookup hwho hlive (by rw [hbound]; exact henrolled)
  · exact stepOk_goto (apart_stores le_rfl).leave (.refl _) (hfirst.append le_rfl [_])

/-- The id of a session that has just been issued was not in use. -/
theorem Inv.fresh (h : Inv crypto past s) (a : Act) : Fresh s.nextToken (past ++ [(s, a)]) := by
  intro q hq c hknown
  obtain hq | hq := List.mem_append.mp hq
  · exact lt_irrefl _ (h.earlier q hq _ c hknown)
  · rw [List.mem_singleton.mp hq] at hknown
    exact lt_irrefl _ (h.known _ c hknown).1

theorem login_ok (h : Inv crypto past s) {c : Candidate} {written : Bool}
    (hpc : s.runs r = .login c) :
    StepOk crypto past (s, .step r written) s ({ s with
      sessions := s.sessions.login c.id s.nextToken c.who.display s.clock written
      nextToken := s.nextToken + 2 }.goto r .ended) r := by
  have hrun := h.runs r
  rw [hpc] at hrun
  refine stepOk_adds (apart_stores (Nat.le_add_right _ 2)) (SessionStore.adds_promote ..)
    (Nat.lt_add_of_pos_right two_pos) ⟨fun _ => ⟨c.who, rfl, once_snoc ?_⟩, nofun⟩ trivial
  exact ⟨r, c.id, .direct hpc rfl rfl rfl, .inl ⟨hrun.1.passed, hrun.2⟩, h.fresh _⟩

theorem beginMfa_ok (h : Inv crypto past s) {c : Candidate} {written : Bool}
    (hpc : s.runs r = .beginMfa c) :
    StepOk crypto past (s, .step r written) s ({ s with
      sessions := s.sessions.beginMfa c.id s.nextToken c.who.display s.clock written
      nextToken := s.nextToken + 2 }.goto r .ended) r := by
  have hrun := h.runs r
  rw [hpc] at hrun
  refine stepOk_adds (apart_stores (Nat.le_add_right _ 2)) (SessionStore.adds_promote ..)
    (Nat.lt_add_of_pos_right two_pos) ⟨nofun, fun _ => ⟨c.who, rfl, once_snoc ?_⟩⟩ trivial
  exact ⟨r, c.id, .mk hpc rfl rfl rfl, hrun.passed⟩

theorem readRecord_ok (h : Inv crypto past s) {m : MfaAttempt} (hpc : s.runs r = .readRecord m) :
    StepOk crypto past e s (s.readRecord r m) r := by
  have hrun := h.runs r
  rw [hpc] at hrun
  refine stepOk_goto (apart_refl r s) (.refl _) ⟨hrun.1.append le_rfl [e], hrun.2, ?_⟩
  rw [show (s.goto r _).enrollment = s.enrollment from rfl, EnrollmentStore.secret_eq_entry]
  cases hsecret : (s.enrollment.entry m.identity).mfaSecret with
  | none => simp [Record.enrolled, hsecret]
  | some secret => simp [Record.enrolled, hsecret]

theorem verifyCode_ok (h : Inv crypto past s) {c : MfaCheck} {written : Bool}
    (hpc : s.runs r = .verifyCode c) :
    StepOk crypto past (s, .step r written) s (s.verifyCode crypto r c) r := by
  have hrun := h.runs r
  rw [hpc] at hrun
  rw [Server.verifyCode]
  split
  next hverified =>
    obtain ⟨hseed, hverify⟩ := Bool.and_eq_true_iff.mp hverified
    refine stepOk_goto (apart_refl r s) (.refl _) ⟨hrun.1.append le_rfl [_], ?_, once_snoc ?_⟩
    · exact ⟨hrun.2.bucket, hrun.2.secret⟩
    · exact .mk hpc rfl rfl rfl hseed hverify
  · exact stepOk_goto (apart_refl r s).leave (.refl _) trivial

theorem acceptCode_ok (h : Inv crypto past s) {c : MfaCheck} {written : Bool}
    (hpc : s.runs r = .acceptCode c) :
    StepOk crypto past (s, .step r written) s (s.acceptCode r c) r := by
  have hrun := h.runs r
  rw [hpc] at hrun
  obtain ⟨hcode, hholds, hshows⟩ := hrun
  simp only [Server.acceptCode]
  split
  · exact stepOk_goto (apart_stores le_rfl).leave (.refl _) trivial
  next haccepted =>
    have hspent : Spent crypto (past ++ [(s, .step r written)]) r c := by
      refine ⟨hshows.append _, once_snoc (.mk hpc rfl rfl ?_)⟩
      rw [← hcode.username]
      simpa using haccepted
    split
    next henrolling =>
      exact stepOk_goto (apart_stores le_rfl) (.refl _)
        ⟨hcode.append le_rfl [_], ⟨hholds.bucket, hholds.secret⟩, henrolling, hspent⟩
    next henrolled =>
      have hsecret := hholds.secret
      rw [if_neg henrolled] at hsecret
      exact stepOk_goto (apart_stores le_rfl).leave (.refl _)
        ⟨hcode.append le_rfl [_], hsecret, hspent⟩

/-- Enrolling changes the record of somebody who had no secret, and no other handler holds the
bucket that reading this record takes. -/
theorem enroll_ok (h : Inv crypto past s) {c : MfaCheck} {written : Bool}
    (hpc : s.runs r = .enroll c) :
    StepOk crypto past e s (s.enroll r c written) r := by
  have hrun := h.runs r
  rw [hpc] at hrun
  obtain ⟨hcode, hholds, henrolling, hspent⟩ := hrun
  have hnone := hholds.secret
  rw [if_pos henrolling] at hnone
  set t : Server := { s with
    enrollment := (s.enrollment.enroll c.identity c.secret s.clock.unix written).2 } with ht
  have hothers : ∀ r', r' ≠ r → Frame r' s t := by
    refine fun r' hr => ⟨rfl, rfl, le_rfl, fun _ hb => hb, fun who secret hw => ?_,
      fun who hb hw => ?_, fun who time hw => ?_⟩
    · have hne : who ≠ c.identity := by
        rintro rfl
        rw [hnone] at hw
        cases hw
      rw [ht, EnrollmentStore.secret_enroll_of_ne hne]
      exact hw
    · have hne : who ≠ c.identity := by
        rintro rfl
        exact hr (Option.some.inj (hb.symm.trans hholds.bucket))
      rw [ht, EnrollmentStore.secret_enroll_of_ne hne]
      exact hw
    · have hne : who ≠ c.identity := by
        rintro rfl
        exact EnrollmentStore.secret_of_currentEnrolledAt hw hnone
      rw [ht, EnrollmentStore.currentEnrolledAt_enroll_of_ne hne]
      exact hw
  have hgoto : ∀ t' : Server, Apart r t t' → t'.sessions = s.sessions →
      RunOk crypto (past ++ [e]) t' r (t'.runs r) → StepOk crypto past e s t' r := by
    intro t' ha hsessions hown
    refine ⟨ha.nextToken, fun id c hk => .inl (by rwa [hsessions] at hk),
      fun id _ hn => by rwa [hsessions], fun r' hr => ?_, hown⟩
    exact (hothers r' hr).trans (ha.frame hr)
  have heq : s.enroll r c written =
      if written then t.goto r (.revokeDevices c) else (t.leave r).goto r .ended := rfl
  rw [heq]
  split
  · refine hgoto _ ((apart_refl r t).goto _) rfl ?_
    rw [goto_runs_self]
    have hsecret : t.enrollment.secret c.identity = some c.secret := by
      rw [ht, EnrollmentStore.secret_enroll_self]
    exact ⟨hcode.append le_rfl [e], hsecret, hspent.append [e]⟩
  · refine hgoto _ ((apart_refl r t).leave.goto _) rfl ?_
    rw [goto_runs_self]
    trivial

theorem mfaLogin_ok (h : Inv crypto past s) {c : MfaCheck} {written : Bool}
    (hpc : s.runs r = .mfaLogin c) :
    StepOk crypto past (s, .step r written) s (s.mfaLogin r c written) r := by
  have hrun := h.runs r
  rw [hpc] at hrun
  obtain ⟨hcode, hsecret, hspent⟩ := hrun
  have hj : Justified crypto (past ++ [(s, .step r written)]) s.nextToken
      ⟨true, false, c.username⟩ := by
    refine ⟨fun _ => ⟨c.identity, hcode.username, once_snoc ?_⟩, nofun⟩
    refine ⟨r, c.id, .code hpc rfl rfl rfl, .inr ⟨hcode.pending, c.secret, c.otp, hsecret, ?_⟩,
      h.fresh _⟩
    exact ⟨hspent.shows, hspent.spends⟩
  simp only [Server.mfaLogin]
  split
  · exact stepOk_adds (apart_stores (Nat.le_add_right _ 2)) (SessionStore.adds_promote ..)
      (Nat.lt_add_of_pos_right two_pos) hj trivial
  · exact stepOk_adds (apart_stores (Nat.le_add_right _ 2)) (SessionStore.adds_promote ..)
      (Nat.lt_add_of_pos_right two_pos) hj trivial

theorem runOk_logout (current : Option (ℕ × Session)) (form : LogoutForm) :
    RunOk crypto past s r (logout current form) := by
  simp only [logout]
  split
  · trivial
  · split <;> trivial

/-- A handler takes a bucket that nobody holds. -/
theorem enter_ok {bucket : Text} (hs : s.enter r bucket pc = some s')
    (hown : ∀ t : Server, t.config = s.config → t.nextToken = s.nextToken →
      t.buckets bucket = some r → RunOk crypto (past ++ [e]) t r pc) :
    StepOk crypto past e s s' r := by
  rw [Server.enter] at hs
  split at hs
  next hfree =>
    rw [Option.some.injEq] at hs
    subst hs
    refine stepOk_goto ⟨rfl, le_rfl, fun b r' hr hb => ?_, fun _ _ => rfl, fun _ => rfl,
      fun _ => rfl⟩ (.refl _) (hown _ rfl rfl (Function.update_self ..))
    have hne : b ≠ bucket := by
      rintro rfl
      rw [hfree] at hb
      cases hb
    exact (Function.update_of_ne hne ..).trans hb
  · cases hs

/-- Every step a handler takes by itself. -/
theorem advance_ok (h : Inv crypto past s) {written : Bool}
    (hs : s.advance crypto r written = some s') :
    StepOk crypto past (s, .step r written) s s' r := by
  have hrun := h.runs r
  cases hpc : s.runs r <;> rw [hpc] at hrun <;> simp only [Server.advance, hpc] at hs
  case idle | ended | exchange => cases hs
  case enterUnlisted => exact enter_ok hs fun _ _ _ _ => trivial
  case enterLocal c password =>
    exact enter_ok hs fun t hconfig hn _ =>
      ⟨by rw [hn]; exact hrun.1, by rw [hconfig]; exact hrun.2⟩
  case enterMfa m =>
    exact enter_ok hs fun t _ hn hb => ⟨CodeOk.append hrun hn.ge _, hb⟩
  case clearOauth id flow device =>
    split at hs <;> rw [Option.some.injEq] at hs <;> subst hs
    · exact stepOk_goto (apart_stores le_rfl) (SessionStore.keeps_setOauth ..) hrun
    · exact stepOk_goto (apart_stores le_rfl) (SessionStore.keeps_setOauth ..) trivial
  case checkLock m =>
    split at hs <;> rw [Option.some.injEq] at hs <;> subst hs
    · exact stepOk_goto (apart_refl r s).leave (.refl _) trivial
    · exact stepOk_goto (apart_refl r s) (.refl _) ⟨hrun.1.append le_rfl _, hrun.2⟩
  case readEnrolled who =>
    split at hs <;> rw [Option.some.injEq] at hs <;> subst hs
    · exact stepOk_goto (apart_refl r s) (.refl _) trivial
    · exact stepOk_goto (apart_refl r s) (.refl _) trivial
  case removeSession id device =>
    split at hs <;> rw [Option.some.injEq] at hs <;> subst hs
    · exact stepOk_goto (apart_stores le_rfl) (SessionStore.keeps_remove ..) trivial
    · exact stepOk_goto (apart_stores le_rfl) (SessionStore.keeps_remove ..) trivial
  all_goals
    rw [Option.some.injEq] at hs
    subst hs
  case arrived req =>
    refine lookUp_ok (handle_ok h ?_ ?_ ?_ req)
    · exact fun _ _ hc => known_currentSession hc
    · rfl
    · exact le_rfl
  case render cookie => exact lookUp_ok trivial
  case ensureSession cookie =>
    refine lookUp_ok ?_
    split <;> trivial
  case createSession =>
    exact stepOk_adds (apart_stores (Nat.le_add_right _ 2)) (SessionStore.adds_create ..)
      (Nat.lt_add_of_pos_right two_pos) justified_anonymous trivial
  case unlisted => exact stepOk_goto (apart_refl r s).leave (.refl _) trivial
  case verifyPassword c password => exact verifyPassword_ok h hpc
  case startOauth id =>
    exact stepOk_goto (apart_stores (Nat.le_add_right _ 3)) (SessionStore.keeps_setOauth ..) trivial
  case pinSubject c sub => exact pinSubject_ok h hpc
  case readTrust c token => exact readTrust_ok h hpc
  case authorize c token enrolledAt => exact authorize_ok h hpc
  case forgetDevice c token =>
    exact stepOk_goto (apart_stores le_rfl) (.refl _) (FirstOk.append hrun le_rfl _)
  case login c => exact login_ok h hpc
  case beginMfa c => exact beginMfa_ok h hpc
  case readRecord m => exact readRecord_ok h hpc
  case verifyCode c => exact verifyCode_ok h hpc
  case acceptCode c => exact acceptCode_ok h hpc
  case strike m =>
    simp only [Server.strike]
    split <;> exact stepOk_goto (apart_stores le_rfl) (.refl _) trivial
  case lockedOut id =>
    exact stepOk_goto (apart_stores le_rfl) (SessionStore.keeps_remove ..) trivial
  case enroll c => exact enroll_ok h hpc
  case revokeDevices c =>
    exact stepOk_goto (apart_stores le_rfl).leave (.refl _)
      ⟨hrun.1.append le_rfl _, hrun.2.1, hrun.2.2.append _⟩
  case clearStrikes c =>
    exact stepOk_goto (apart_stores le_rfl) (.refl _)
      ⟨hrun.1.append le_rfl _, hrun.2.1, hrun.2.2.append _⟩
  case mfaLogin c => exact mfaLogin_ok h hpc
  case mint who enrolledAt =>
    exact stepOk_goto (apart_stores (Nat.le_add_right _ 2)) (.refl _) trivial
  case logout form =>
    exact lookUp_ok (runOk_logout _ form)
  case revokeToken token => exact stepOk_goto (apart_stores le_rfl) (.refl _) trivial

/-! ## The invariant -/

/-- What the timers do, and what the private area does to the devices. -/
structure Environment (s s' : Server) : Prop where
  sessions : s.sessions.Keeps s'.sessions
  same : s' = { s with sessions := s'.sessions, devices := s'.devices, clock := s'.clock }

theorem Environment.frame (h : Environment s s') (r : ℕ) : Frame r s s' := by
  rw [h.same]
  exact ⟨rfl, rfl, le_rfl, fun _ hb => hb, fun _ _ hw => hw, fun _ _ hw => hw, fun _ _ hw => hw⟩

/-- Whatever a server run starts from, it knows no login that was not in a file. -/
theorem known_start {config : Config} {enrollment : EnrollmentStore} {devices : DeviceStore}
    {clock : Clock} {written : Bool} {runs : ℕ → Pc} {store : SessionStore} {c : Credential}
    (h : (Server.start config enrollment devices clock written store.disk n runs).sessions.Known
      id c) : store.Known id c := by
  simp only [Server.start] at h
  split at h
  · exact SessionStore.known_load h
  · exact SessionStore.known_new h

theorem runOk_killed (pc : Pc) : RunOk crypto past s r pc.killed := by
  cases pc <;> trivial

/-- What a step can be: one of a handler, one of the environment, or a restart. -/
theorem loginStep_cases (h : Inv crypto past s) {a : Act} (hs : loginStep crypto s a = some s') :
    (∃ r, StepOk crypto past (s, a) s s' r) ∨ Environment s s' ∨
      ∃ config enrollment devices clock written,
        a = .restart config enrollment devices clock written ∧
        s' = .start config enrollment devices clock written s.sessions.disk s.nextToken
          fun r => (s.runs r).killed := by
  cases a with
  | arrive r req =>
    simp only [Login.loginStep] at hs
    split at hs
    · obtain rfl := Option.some.inj hs
      exact .inl ⟨r, stepOk_goto (apart_refl r s) (.refl _) trivial⟩
    · cases hs
  | step r written => exact .inl ⟨r, advance_ok h hs⟩
  | answer r claims =>
    simp only [Login.loginStep] at hs
    split at hs
    next hpc =>
      obtain rfl := Option.some.inj hs
      exact .inl ⟨r, exchanged_ok h hpc⟩
    · cases hs
  | abandon r =>
    simp only [Login.loginStep] at hs
    split at hs
    · obtain rfl := Option.some.inj hs
      exact .inl ⟨r, stepOk_goto (apart_refl r s).leave (.refl _) trivial⟩
    · cases hs
  | tick clock =>
    simp only [Login.loginStep] at hs
    split at hs
    · obtain rfl := Option.some.inj hs
      exact .inr (.inl ⟨.refl _, rfl⟩)
    · cases hs
  | sweep written =>
    obtain rfl := Option.some.inj hs
    exact .inr (.inl ⟨SessionStore.keeps_sweep .., rfl⟩)
  | sweepDevices =>
    obtain rfl := Option.some.inj hs
    exact .inr (.inl ⟨.refl _, rfl⟩)
  | revokeDevice who id =>
    obtain rfl := Option.some.inj hs
    exact .inr (.inl ⟨.refl _, rfl⟩)
  | restart config enrollment devices clock written =>
    exact .inr (.inr ⟨config, enrollment, devices, clock, written, rfl, (Option.some.inj hs).symm⟩)

theorem Inv.loginStep (h : Inv crypto past s) {a : Act} (hs : loginStep crypto s a = some s') :
    Inv crypto (past ++ [(s, a)]) s' := by
  obtain ⟨r, hok⟩ | henv | ⟨config, enrollment, devices, clock, written, rfl, rfl⟩ :=
    loginStep_cases h hs
  · exact h.stepOk rfl hok
  · exact h.step rfl (henv.frame 0).nextToken (fun id c hk => .inl (henv.sessions.known id c hk))
      fun r => .inl (henv.frame r)
  · exact h.step rfl le_rfl (fun id c hk => .inl (known_start hk))
      fun r => .inr (runOk_killed (s.runs r))

theorem inv_init (h : (loginSystem crypto).init s) : Inv crypto [] s := by
  obtain ⟨config, enrollment, devices, clock, written, rfl⟩ := h
  refine ⟨fun id c hk => ?_, fun q hq => absurd hq List.not_mem_nil, fun r => trivial⟩
  have hempty : (SessionStore.new 0 fun _ => ∅).Known id c := known_start hk
  obtain ⟨x, hx, _⟩ | ⟨path, d, hd, _⟩ := hempty
  · rw [SessionStore.new, AList.lookup_empty] at hx
    cases hx
  · rw [SessionStore.new, AList.lookup_empty] at hd
    cases hd

/-- The invariant holds in every run, across restarts. -/
theorem inv_of_trace (h : (loginSystem crypto).Trace past s) : Inv crypto past s :=
  h.invariant (I := fun past s => Inv crypto past s) (fun _ hi => inv_init hi)
    fun _ _ _ _ _ hinv hs => hinv.loginStep hs

end

end Webshell.Login
