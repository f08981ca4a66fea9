import Webshell.App.Settings
import Webshell.Auth.PasswordKeys

/-!
# Simple mode

One local user with a password from the environment. The password is stored as it is given, and
then checked like any other stored value: without the whitespace around it, and as a hash if it
has the shape of one.

## Main definitions

- `runSimple`: the configuration of simple mode, if it starts
- `localCheck`: what `local_login` makes of a username and a password
- `ChecksVerbatim`: the password that is accepted is the configured one

## Main results

- `checksVerbatim_iff`: that is so exactly for a password with no whitespace around it that is not
  shaped like a hash
- `blank_password_accepts_empty`: three blanks for a password
-/

namespace Webshell

open Text

/-- The hash format takes its own hash for the password. -/
def LocalAuth.Hashers.AcceptsItself (hashers : LocalAuth.Hashers) (password : Text) : Prop :=
  hashers.bcrypt password password.trim = some true ∨
    hashers.argon2 password password.trim = some true

section
variable [CaseTables]

/-- `none` where simple mode does not start. A variable that is not set is an empty text, except
that there is a default for `WEBSHELL_BIND`. -/
def runSimple (euid : ℕ) (owner : OwnerInfo) (secret : Option Text) (user password : Text)
    (bind : Option Text) : Option RuntimeConfig :=
  if euid = 0 ∨ user.trim = [] ∨ password = [] then none
  else Config.simple owner secret user password (bind.getD "127.0.0.1:9023".toList)

/-- The checks of `local_login` on the username and the password. -/
def localCheck (hashers : LocalAuth.Hashers) (config : Config) (username password : Text) : Bool :=
  let who := Identity.new .local username
  config.localUsable && config.permits who &&
    ((config.localPassword who).bind fun stored =>
      LocalAuth.verify hashers stored password) = some true

/-- The configured user logs in with the configured password, and nobody with an empty one. -/
def ChecksVerbatim (hashers : LocalAuth.Hashers) (config : Config) (user password : Text) : Prop :=
  (∀ username submitted, Identity.new .local username = Identity.new .local user →
    (localCheck hashers config username submitted = true ↔ submitted = password)) ∧
  ∀ username, localCheck hashers config username [] = false

variable {hashers : LocalAuth.Hashers} {euid : ℕ} {owner : OwnerInfo} {secret bind : Option Text}
  {user password : Text} {config : RuntimeConfig}

/-- What simple mode is configured with. -/
theorem runSimple_eq_some (h : runSimple euid owner secret user password bind = some config) :
    password ≠ [] ∧ config.users = [Identity.new .local user] ∧ config.loginMethods = [.local] ∧
      config.localPasswords = [((Identity.new .local user).display, password)] := by
  rw [runSimple] at h
  split at h
  · cases h
  next hstarts =>
    refine ⟨fun hempty => hstarts (.inr (.inr hempty)), ?_⟩
    obtain ⟨sizes, _, hfrom⟩ := Config.exists_fromSettings owner secret
      { network := { bind := bind.getD "127.0.0.1:9023".toList }
        auth := { users := [Identity.new .local user], loginMethods := ["local".toList] }
        mfa := { required := false }
        localPasswords := [((Identity.new .local user).display, password)] }
    obtain rfl := Option.some.inj (hfrom.symm.trans h)
    have hmethod : parseLoginMethod "local".toList = some .local := by
      have hletters := Provider.asStr_lowercase .local
      have htrim : trim "local".toList = "local".toList := by decide
      rw [parseLoginMethod, htrim]
      exact if_pos (toLowercase_ascii _ hletters)
    refine ⟨rfl, ?_, rfl⟩
    change keepFirst (["local".toList].filterMap parseLoginMethod) = _
    rw [List.filterMap_cons, hmethod]
    rfl

variable (hashers) in
theorem localCheck_eq (h : runSimple euid owner secret user password bind = some config)
    (username submitted : Text) :
    localCheck hashers config.toConfig username submitted = true ↔
      Identity.new .local username = Identity.new .local user ∧
        LocalAuth.verify hashers password submitted = some true := by
  obtain ⟨_, husers, hmethods, hpasswords⟩ := runSimple_eq_some h
  have husable : config.toConfig.localUsable = true := by
    rw [Config.localUsable, husers, hmethods]
    rfl
  have hfound : config.toConfig.localPassword (Identity.new .local user) = some password := by
    have hkey : toLowercase (Identity.new .local user).display.trim =
      (Identity.new .local user).display := lookedUpAs_display _
    rw [Config.localPassword, hpasswords, List.find?_cons_of_pos (by exact decide_eq_true hkey)]
    rfl
  rw [localCheck, husable, Config.permits, husers]
  simp only [Bool.true_and, Bool.and_eq_true, decide_eq_true_eq, List.contains_iff_mem,
    List.mem_singleton]
  refine and_congr_right fun hwho => ?_
  rw [hwho, hfound, Option.bind_some]

omit [CaseTables] in
theorem looksHashed_trim (password : Text) :
    LocalAuth.looksHashed password.trim = LocalAuth.looksHashed password := by
  rw [LocalAuth.looksHashed, LocalAuth.looksHashed, trim_trim]

variable (hashers) in
omit [CaseTables] in
/-- A value that is not shaped like a hash is compared without the whitespace around it. -/
theorem verify_plain (hplain : LocalAuth.looksHashed password = false) (submitted : Text) :
    LocalAuth.verify hashers password submitted = some true ↔ submitted = password.trim := by
  rw [LocalAuth.verify]
  rw [looksHashed_trim, hplain, Bool.not_false, if_pos rfl, Option.some.injEq, beq_iff_eq, eq_comm]

omit [CaseTables] in
theorem acceptsItself_of_verify (hhashed : LocalAuth.looksHashed password = true)
    (h : LocalAuth.verify hashers password password = some true) :
    hashers.AcceptsItself password := by
  rw [LocalAuth.verify] at h
  rw [looksHashed_trim, hhashed, Bool.not_true, if_neg Bool.false_ne_true] at h
  split at h
  · exact .inl h
  · exact .inr h

/-- **Simple mode.** The configured user logs in with exactly the configured password, and nobody
with an empty one, if the password has no whitespace around it and is not shaped like a hash; for
every other password that simple mode starts with, that is not so. -/
theorem checksVerbatim_iff (h : runSimple euid owner secret user password bind = some config)
    (hhash : ¬hashers.AcceptsItself password) :
    ChecksVerbatim hashers config.toConfig user password ↔
      password.trim = password ∧ LocalAuth.looksHashed password = false := by
  have hcheck := localCheck_eq hashers h
  constructor
  · rintro ⟨hverbatim, _⟩
    have hverify := ((hcheck user password).mp ((hverbatim user password rfl).mpr rfl)).2
    have hplain : LocalAuth.looksHashed password = false :=
      Bool.eq_false_iff.mpr fun hhashed => hhash (acceptsItself_of_verify hhashed hverify)
    exact ⟨((verify_plain hashers hplain password).mp hverify).symm, hplain⟩
  · rintro ⟨htrim, hplain⟩
    have hverify := verify_plain hashers hplain
    rw [htrim] at hverify
    refine ⟨fun username submitted hwho => ?_, fun username => ?_⟩
    · rw [hcheck, hverify, and_iff_right hwho]
    · refine Bool.eq_false_iff.mpr fun hempty => ?_
      have hpassword := (hverify []).mp ((hcheck username []).mp hempty).2
      exact (runSimple_eq_some h).1 hpassword.symm

end

/-! ### Two passwords -/

open Text.Greek

def sampleOwner : OwnerInfo := ⟨"web".toList, "/home/web".toList, "/bin/sh".toList⟩

/-- What is no hash cannot be checked as one. -/
def noHashers : LocalAuth.Hashers := ⟨fun _ _ => none, fun _ _ => none⟩

theorem exists_runSimple (password : Text) (hpassword : password ≠ []) :
    ∃ config, runSimple 1000 sampleOwner none "alice".toList password none = some config := by
  have hstarts : ¬(1000 = 0 ∨ trim "alice".toList = [] ∨ password = []) :=
    not_or.mpr ⟨by decide, not_or.mpr ⟨by decide, hpassword⟩⟩
  rw [runSimple, if_neg hstarts]
  obtain ⟨sizes, _, hfrom⟩ := Config.exists_fromSettings sampleOwner none _
  exact ⟨_, hfrom⟩

theorem checksVerbatim_iff_hunter2 :
    ∃ config, runSimple 1000 sampleOwner none "alice".toList "hunter2".toList none = some config ∧
      ChecksVerbatim noHashers config.toConfig "alice".toList "hunter2".toList := by
  obtain ⟨config, hconfig⟩ := exists_runSimple "hunter2".toList (by decide)
  refine ⟨config, hconfig, (checksVerbatim_iff hconfig ?_).mpr (by decide)⟩
  rintro (h | h) <;> cases h

/-- With three blanks for a password, an empty submission logs in. -/
theorem blank_password_accepts_empty :
    ¬ ∀ (_ : CaseTables) (hashers : LocalAuth.Hashers) (euid : ℕ) (owner : OwnerInfo)
      (secret bind : Option Text) (user password : Text) (config : RuntimeConfig),
      runSimple euid owner secret user password bind = some config →
      ChecksVerbatim hashers config.toConfig user password := by
  intro h
  obtain ⟨config, hconfig⟩ := exists_runSimple "   ".toList (by decide)
  have hverbatim := h tables noHashers _ _ _ _ _ _ config hconfig
  have hempty : localCheck noHashers config.toConfig "alice".toList [] = true :=
    (localCheck_eq noHashers hconfig _ _).mpr ⟨rfl, by decide⟩
  rw [hverbatim.2] at hempty
  cases hempty

end Webshell
