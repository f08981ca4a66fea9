import Webshell.Auth.Factors

/-!
# Stale trust cookies

What becomes of the trust of a browser when somebody has passed the first factor there and is asked
for a code. The store keeps the records of others, but the cookie goes whoever it belongs to.

## Main definitions

- `Jar`: the cookies of a browser
- `trustedDevice`, `forgetStaleDevice`, `firstFactorPassed`: the end of both login paths
- `SparesTrust`: what another identity's login should leave alone

## Main results

- `sparesTrust_iff`: it does exactly if the cookie names nobody else's record
-/

namespace Webshell

section
variable [Text.Lowercase]

/-- The cookies of a browser that have a right signature: of the session and of the trust. -/
structure Jar where
  session : Option ℕ
  device : Option ℕ
deriving DecidableEq

/-- Where a login goes on. -/
inductive Landing
  | privatePage
  | mfaPage
deriving DecidableEq

def deviceToken (jar : Jar) : Option ℕ := jar.device

/-- Whether the browser may skip the code; the result is the device's handle. -/
def trustedDevice (config : Config) (enrollment : EnrollmentStore) (devices : DeviceStore)
    (jar : Jar) (identity : Identity) (now : ℕ) : Option ℕ × DeviceStore :=
  if !config.rememberDevice then (none, devices)
  else
    match deviceToken jar with
    | none => (none, devices)
    | some token =>
      match enrollment.currentEnrolledAt identity with
      | none => (none, devices)
      | some enrolledAt => devices.authorize token identity enrolledAt now

/-- The record goes if the identity owns it. The cookie goes in any case. -/
def forgetStaleDevice (config : Config) (devices : DeviceStore) (jar : Jar)
    (identity : Identity) : DeviceStore × Jar :=
  if !config.rememberDevice then (devices, jar)
  else
    match deviceToken jar with
    | none => (devices, jar)
    | some token => (devices.forgetIfOwned token identity, { jar with device := none })

/-- The end of `local_login` and of `oauth_callback`; the new session has the id `newId`. -/
def firstFactorPassed (config : Config) (enrollment : EnrollmentStore) (devices : DeviceStore)
    (jar : Jar) (who : Identity) (now newId : ℕ) : Landing × DeviceStore × Jar :=
  if !config.mfaRequired then (.privatePage, devices, { jar with session := some newId })
  else
    match trustedDevice config enrollment devices jar who now with
    | (some _, devices) => (.privatePage, devices, { jar with session := some newId })
    | (none, devices) =>
      let (devices, jar) := forgetStaleDevice config devices jar who
      (.mfaPage, devices, { jar with session := some newId })

/-- A login of `who` spares the trust of others: it removes no record, and no cookie of one, that
is not its own, and whoever else the browser was trusted for is trusted as before. -/
structure SparesTrust (config : Config) (devices : DeviceStore) (jar : Jar) (who : Identity)
    (devices' : DeviceStore) (jar' : Jar) : Prop where
  removes : ∀ token d, devices.lookup token = some d → devices'.lookup token = none →
    jar.device = some token ∧ d.identity = who
  clears : jar'.device ≠ jar.device → ∀ token d, jar.device = some token →
    devices.lookup token = some d → d.identity = who
  keeps : ∀ token d, jar.device = some token → devices.lookup token = some d →
    d.identity ≠ who →
      devices'.lookup token = some d ∧ jar'.device = some token ∧
      ∀ enrollment now, (trustedDevice config enrollment devices' jar' d.identity now).1 =
        (trustedDevice config enrollment devices jar d.identity now).1

variable {config : Config} {enrollment : EnrollmentStore} {devices devices' : DeviceStore}
  {jar jar' : Jar} {who : Identity} {now newId : ℕ}

/-- Who is refused leaves the store as it was. -/
theorem authorize_eq_none {token enrolledAt : ℕ}
    (h : (devices.authorize token who enrolledAt now).1 = none) :
    devices.authorize token who enrolledAt now = (none, devices) := by
  rw [DeviceStore.authorize] at h ⊢
  cases hd : devices.lookup token with
  | none => rfl
  | some d =>
    simp only [hd] at h ⊢
    split
    next => rfl
    next hok =>
      rw [if_neg hok] at h
      cases h

theorem trustedDevice_eq_none
    (h : (trustedDevice config enrollment devices jar who now).1 = none) :
    trustedDevice config enrollment devices jar who now = (none, devices) := by
  rw [trustedDevice] at h ⊢
  by_cases hoff : (!config.rememberDevice) = true
  · rw [if_pos hoff]
  rw [if_neg hoff] at h ⊢
  cases hjar : deviceToken jar with
  | none => rfl
  | some token =>
    simp only [hjar] at h ⊢
    cases henrolled : enrollment.currentEnrolledAt who with
    | none => rfl
    | some enrolledAt =>
      simp only [henrolled] at h ⊢
      exact authorize_eq_none h

/-- Who is asked for a code has left `forget_stale_device` to look at the cookie. -/
theorem firstFactorPassed_of_mfa
    (h : (firstFactorPassed config enrollment devices jar who now newId).1 = .mfaPage) :
    firstFactorPassed config enrollment devices jar who now newId =
      (.mfaPage, (forgetStaleDevice config devices jar who).1,
        { (forgetStaleDevice config devices jar who).2 with session := some newId }) := by
  unfold firstFactorPassed at h ⊢
  by_cases hmfa : (!config.mfaRequired) = true
  · rw [if_pos hmfa] at h
    cases h
  rw [if_neg hmfa] at h ⊢
  cases htrust : (trustedDevice config enrollment devices jar who now).1 with
  | none => rw [trustedDevice_eq_none htrust]
  | some device =>
    have hpair : trustedDevice config enrollment devices jar who now =
        (some device, (trustedDevice config enrollment devices jar who now).2) :=
      Prod.ext htrust rfl
    rw [hpair] at h
    cases h

/-- Trust is a matter of the records and the trust cookie. -/
theorem trustedDevice_congr (hlookup : ∀ token, jar.device = some token →
      devices'.lookup token = devices.lookup token) (hjar : jar'.device = jar.device) :
    (trustedDevice config enrollment devices' jar' who now).1 =
      (trustedDevice config enrollment devices jar who now).1 := by
  simp only [trustedDevice, deviceToken, hjar]
  split
  · rfl
  · cases hdevice : jar.device with
    | none => rfl
    | some token =>
      cases enrollment.currentEnrolledAt who with
      | none => rfl
      | some enrolledAt =>
        simp only [DeviceStore.authorize, hlookup token hdevice]
        cases devices.lookup token with
        | none => rfl
        | some d => simp only [apply_ite Prod.fst]

/-- Only the identity's own record goes. -/
theorem lookup_forgetStaleDevice {token : ℕ} {d : Device} (hd : devices.lookup token = some d)
    (hgone : (forgetStaleDevice config devices jar who).1.lookup token = none) :
    jar.device = some token ∧ d.identity = who := by
  rw [forgetStaleDevice] at hgone
  split at hgone
  · rw [hd] at hgone
    cases hgone
  · split at hgone
    · rw [hd] at hgone
      cases hgone
    next named hjar =>
      simp only [DeviceStore.lookup_forgetIfOwned, hd, Option.filter_some] at hgone
      split at hgone
      · cases hgone
      next hown =>
        simp only [Bool.not_eq_true', Bool.not_eq_false, Bool.and_eq_true,
          decide_eq_true_eq] at hown
        obtain ⟨rfl, howner⟩ := hown
        exact ⟨hjar, howner⟩

/-- **When another identity's login leaves your trust alone.** Whoever passes the first factor and
is asked for a code clears the trust cookie, unless the feature is off or there is none. This
spares the others exactly if the cookie names no record of another identity. -/
theorem sparesTrust_iff
    (h : (firstFactorPassed config enrollment devices jar who now newId).1 = .mfaPage) :
    SparesTrust config devices jar who
        (firstFactorPassed config enrollment devices jar who now newId).2.1
        (firstFactorPassed config enrollment devices jar who now newId).2.2 ↔
      (config.rememberDevice = true → ∀ token d, jar.device = some token →
        devices.lookup token = some d → d.identity = who) := by
  rw [firstFactorPassed_of_mfa h]
  constructor
  · intro hspares hon token d hjar hd
    -- with the feature on, a cookie is always cleared
    refine hspares.clears ?_ token d hjar hd
    simp only [forgetStaleDevice, hon, deviceToken, hjar, Bool.not_true, Bool.false_eq_true,
      if_false]
    exact fun hsame => by cases hsame
  · intro hown
    refine ⟨fun token d hd hgone => lookup_forgetStaleDevice hd hgone, fun hcleared => ?_, ?_⟩
    · intro token d hjar hd
      cases hon : config.rememberDevice with
      | true => exact hown hon token d hjar hd
      | false =>
        rw [forgetStaleDevice, hon] at hcleared
        exact absurd rfl hcleared
    · intro token d hjar hd hother
      cases hon : config.rememberDevice with
      | true => exact absurd (hown hon token d hjar hd) hother
      | false =>
        have hnothing : forgetStaleDevice config devices jar who = (devices, jar) := by
          rw [forgetStaleDevice, hon]
          rfl
        rw [hnothing]
        exact ⟨hd, hjar, fun enrollment now => trustedDevice_congr (fun _ _ => rfl) rfl⟩

end

/-! ## A shared browser -/

namespace SharedBrowser

open Login.Sample Text.Ascii

/-- Alice and bob are asked for codes, and browsers may be remembered. -/
def config : Config :=
  { Login.Sample.config alice with
    users := [alice, bob]
    mfaRequired := true
    rememberDevice := true }

/-- Alice and bob have enrolled at time 500. -/
def enrollment : EnrollmentStore :=
  ((∅ : EnrollmentStore).insert alice ⟨none, some "JBSWY3DPEHPK3PXP".toList, some 500⟩).insert bob
    ⟨none, some "GEZDGNBVGY3TQOJQ".toList, some 500⟩

/-- Alice has trusted the browser at time 1000. -/
def devices : DeviceStore := (∅ : DeviceStore).insert 7 ⟨8, alice, 1000, 2593000, 1000, 500⟩

def jar : Jar := ⟨none, some 7⟩

/-- Bob is asked for a code, and alice's cookie is gone. -/
theorem bob_clears_cookie :
    (firstFactorPassed config enrollment devices jar bob 2000 9).1 = .mfaPage ∧
    ¬ SparesTrust config devices jar bob
      (firstFactorPassed config enrollment devices jar bob 2000 9).2.1
      (firstFactorPassed config enrollment devices jar bob 2000 9).2.2 := by
  refine ⟨by decide, fun hspares => ?_⟩
  have hkeeps := hspares.keeps 7 ⟨8, alice, 1000, 2593000, 1000, 500⟩ rfl rfl (by decide)
  exact absurd hkeeps.2.1 (by decide)

/-- Bob has trusted another browser of his at time 1000, for a quarter of an hour. -/
def bobsToo : DeviceStore := devices.insert 9 ⟨10, bob, 1000, 1900, 1000, 500⟩

/-- When he comes back there after that, his record and his cookie go, and alice keeps hers. -/
theorem sparesTrust_iff_bob :
    (firstFactorPassed config enrollment bobsToo ⟨none, some 9⟩ bob 2000 11).1 = .mfaPage ∧
    ((firstFactorPassed config enrollment bobsToo ⟨none, some 9⟩ bob 2000 11).2.1.lookup 9 = none ∧
      (firstFactorPassed config enrollment bobsToo ⟨none, some 9⟩ bob 2000 11).2.2.device = none) ∧
    SparesTrust config bobsToo ⟨none, some 9⟩ bob
      (firstFactorPassed config enrollment bobsToo ⟨none, some 9⟩ bob 2000 11).2.1
      (firstFactorPassed config enrollment bobsToo ⟨none, some 9⟩ bob 2000 11).2.2 := by
  refine ⟨by decide, ⟨rfl, rfl⟩, (sparesTrust_iff (by decide)).mpr fun _ token d hjar hd => ?_⟩
  cases hjar
  cases hd
  rfl

end SharedBrowser

end Webshell
