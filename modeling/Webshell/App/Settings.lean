import Webshell.App.Handlers
import Webshell.Lib.Checked

/-!
# Settings and the resolved configuration

What the configuration file says, and what a server run makes of it. Durations of the resolved
configuration are in nanoseconds, as everywhere else; the settings count seconds and days.

## Main definitions

- `Settings`: the tables of the configuration file, with their defaults
- `RuntimeConfig`: the fully resolved configuration, with the part that the login handlers read
- `normalizeOrigin`: a configured origin as an `Origin` header can carry it
- `Config.fromSettings`, `Config.simple`: the configuration of `run` and of `simple`

## Main results

- `sizing_eq`, `Config.exists_fromSettings`: what the sizes become, and that resolving never panics
-/

namespace Webshell

open Text

/-! ## The configuration file -/

/-- Where the server listens and how it is reached. -/
structure Settings.Network where
  bind : Text := "127.0.0.1:8080".toList
  publicBaseUrl : Option Text := none
  allowedOrigins : List Text := []
  strictOrigin : Bool := false
  cookieSecure : Bool := false

structure Settings.Mfa where
  required : Bool := true
  enrollmentPath : Text := "enrollment.toml".toList
  rememberDevice : Bool := false
  rememberDeviceDays : ℕ := 30
  devicePath : Text := "devices.toml".toList
  maxDevicesPerIdentity : ℕ := 10

structure Settings.Google where
  clientId : Option Text := none
  clientSecret : Option Text := none

structure Settings.TerminalSettings where
  maxSessions : ℕ := 10
  scrollbackBytes : ℕ := 128 * 1024
  loginCmd : List Text := []
  /-- 0 disables the redraw. -/
  redrawIntervalSecs : ℕ := 30
  envs : List (Text × Text) := []

structure Settings.Sharing where
  enabled : Bool := true
  maxDurationSecs : ℕ := 30 * 24 * 3600

structure Settings.Certs where
  letsEncryptEnabled : Bool := false
  storeDir : Text := "certs".toList
  letsEncryptStaging : Bool := false
  contactEmail : Option Text := none

variable [Lowercase]

/-- Who may log in, and by which methods. -/
structure Settings.Auth where
  users : List Identity := []
  loginMethods : List Text := ["local".toList]
  sessionTtlSecs : ℕ := 8 * 3600
  sessionPath : Option Text := none
  secretBase64 : Option Text := none

structure Settings where
  network : Settings.Network := {}
  auth : Settings.Auth := {}
  mfa : Settings.Mfa := {}
  google : Settings.Google := {}
  terminals : Settings.TerminalSettings := {}
  sharing : Settings.Sharing := {}
  certs : Settings.Certs := {}
  /-- In the order in which the map is searched. -/
  localPasswords : List (Text × Text) := []

/-! ## The resolved configuration -/

/-- Validated Let's Encrypt mode. -/
structure TlsConfig where
  hostname : Text
  storeDir : Text
  staging : Bool
  contactEmail : Option Text

/-- The account that runs the server, from the password database. -/
structure OwnerInfo where
  name : Text
  home : Text
  shell : Text

structure RuntimeConfig extends Config where
  bindAddr : Text
  mfaEnrollmentPath : Text
  devicePath : Text
  owner : Text
  ownerHome : Text
  slotsPerUser : ℕ
  maxShareSecs : ℕ
  sharingEnabled : Bool
  loginCmd : List Text
  envs : List (Text × Text)
  scrollbackCap : ℕ
  redrawInterval : Option ℕ
  cookieSecure : Bool
  allowedOrigins : List Text
  strictOrigin : Bool
  wsMessageLimit : ℕ
  secretBase64 : Option Text
  tls : Option TlsConfig

/-- The part of the configuration that the handlers of the private area read. -/
def RuntimeConfig.handlerSettings (config : RuntimeConfig) : App.Settings :=
  ⟨config.sharingEnabled, config.maxShareSecs, config.allowedOrigins, config.strictOrigin⟩

/-- The first of every group of equal entries. -/
def keepFirst {α : Type} [DecidableEq α] (xs : List α) : List α :=
  xs.foldl (fun acc x => if x ∈ acc then acc else acc ++ [x]) []

/-- No path, and the scheme only if one was written. -/
def normalizeOrigin (url : Text) : Text :=
  match App.splitScheme url.trim with
  | some (scheme, after) => scheme ++ "://".toList ++ after.takeWhile (· ≠ '/')
  | none => url.trim.takeWhile (· ≠ '/')

def trimEndSlashes (url : Text) : Text := url.rdropWhile (· = '/')

def parseLoginMethod (name : Text) : Option Provider :=
  if toLowercase name.trim = "local".toList then some .local
  else if toLowercase name.trim = "google".toList then some .google
  else none

/-- What becomes of the numbers of the settings. -/
structure Sizing where
  slotsPerUser : ℕ
  scrollbackCap : ℕ
  redrawInterval : Option ℕ
  rememberDeviceWindow : ℕ
  maxDevicesPerIdentity : ℕ
  maxShareSecs : ℕ
  sessionTtl : ℕ

/-- What all the retained scrollback may take. -/
def aggregateBudget : ℕ := 256 * 1024 * 1024

/-- No period for 0; the floor of the others is one second. -/
def redrawPeriod (secs : ℕ) : Option (Option ℕ) :=
  if secs = 0 then some none
  else (Checked.clamp secs 1 3600).map fun secs => some (fromSecs secs)

/-- The arithmetic of `from_settings`; `none` is a panic. -/
def sizing (s : Settings) : Option Sizing := do
  let slotsPerUser ← Checked.clamp s.terminals.maxSessions 1 64
  let requestedScrollback ← Checked.clamp s.terminals.scrollbackBytes (4 * 1024) (16 * 1024 * 1024)
  let share ← Checked.div aggregateBudget slotsPerUser
  let redrawInterval ← redrawPeriod s.terminals.redrawIntervalSecs
  let days ← Checked.clamp s.mfa.rememberDeviceDays 1 90
  let hours ← Checked.mul days 24
  let window ← Checked.mul hours 3600
  let maxDevices ← Checked.clamp s.mfa.maxDevicesPerIdentity 1 64
  some {
    slotsPerUser := slotsPerUser
    scrollbackCap := min requestedScrollback share
    redrawInterval := redrawInterval
    rememberDeviceWindow := fromSecs window
    maxDevicesPerIdentity := maxDevices
    maxShareSecs := max s.sharing.maxDurationSecs 1
    sessionTtl := fromSecs (max s.auth.sessionTtlSecs 60) }

/-- The rest of `from_settings`. `secret` is the environment variable `WEBSHELL_SECRET`. -/
def Config.resolve (owner : OwnerInfo) (secret : Option Text) (s : Settings) (sizes : Sizing) :
    RuntimeConfig :=
  let publicBaseUrl := s.network.publicBaseUrl.map trimEndSlashes
  { users := s.auth.users
    loginMethods := keepFirst (s.auth.loginMethods.filterMap parseLoginMethod)
    localPasswords := s.localPasswords
    mfaRequired := s.mfa.required
    googleClientId := s.google.clientId
    googleClientSecret := s.google.clientSecret
    rememberDevice := s.mfa.required && s.mfa.rememberDevice
    rememberDeviceWindow := sizes.rememberDeviceWindow
    maxDevicesPerIdentity := sizes.maxDevicesPerIdentity
    publicBaseUrl := publicBaseUrl
    sessionTtl := sizes.sessionTtl
    sessionPath := s.auth.sessionPath
    bindAddr := s.network.bind
    mfaEnrollmentPath := s.mfa.enrollmentPath
    devicePath := s.mfa.devicePath
    owner := owner.name
    ownerHome := owner.home
    slotsPerUser := sizes.slotsPerUser
    maxShareSecs := sizes.maxShareSecs
    sharingEnabled := s.sharing.enabled
    loginCmd :=
      if s.terminals.loginCmd = [] then [owner.shell, "-l".toList] else s.terminals.loginCmd
    envs := s.terminals.envs
    scrollbackCap := sizes.scrollbackCap
    redrawInterval := sizes.redrawInterval
    cookieSecure := s.network.cookieSecure ||
      publicBaseUrl.any fun u => "https://".toList.isPrefixOf (u.map Ascii.toLower)
    allowedOrigins := keepFirst (((s.network.allowedOrigins ++ publicBaseUrl.toList).map
      normalizeOrigin).filter fun o => !o.isEmpty)
    strictOrigin := s.network.strictOrigin
    wsMessageLimit := 64 * 1024
    secretBase64 := secret <|> s.auth.secretBase64
    tls := none }

/-- `none` stands for a panic. -/
def Config.fromSettings (owner : OwnerInfo) (secret : Option Text) (s : Settings) :
    Option RuntimeConfig :=
  (sizing s).map (Config.resolve owner secret s)

/-- One local user with the given password, and no second factor. -/
def Config.simple (owner : OwnerInfo) (secret : Option Text) (user password bind : Text) :
    Option RuntimeConfig :=
  let identity := Identity.new .local user
  Config.fromSettings owner secret {
    network := { bind := bind }
    auth := { users := [identity], loginMethods := ["local".toList] }
    mfa := { required := false }
    localPasswords := [(identity.display, password)] }

omit [Lowercase] in
/-- Every entry has one that is kept. -/
theorem mem_keepFirst {α : Type} [DecidableEq α] {x : α} (xs : List α) :
    x ∈ keepFirst xs ↔ x ∈ xs := by
  have hfold : ∀ acc : List α,
      x ∈ xs.foldl (fun acc x => if x ∈ acc then acc else acc ++ [x]) acc ↔ x ∈ acc ∨ x ∈ xs := by
    induction xs with
    | nil => simp
    | cons y ys ih =>
      intro acc
      rw [List.foldl_cons, ih, List.mem_cons]
      by_cases hy : y ∈ acc
      · rw [if_pos hy]
        refine ⟨Or.imp_right .inr, ?_⟩
        rintro (hacc | rfl | hys)
        exacts [.inl hacc, .inl hy, .inr hys]
      · rw [if_neg hy, List.mem_append, List.mem_singleton, or_assoc]
  rw [keepFirst, hfold]
  simp

/-! ## What the sizes become -/

theorem sizing_eq (s : Settings) : sizing s = some {
    slotsPerUser := max 1 (min s.terminals.maxSessions 64)
    scrollbackCap := min (max (4 * 1024) (min s.terminals.scrollbackBytes (16 * 1024 * 1024)))
      (aggregateBudget / max 1 (min s.terminals.maxSessions 64))
    redrawInterval := if s.terminals.redrawIntervalSecs = 0 then none
      else some (fromSecs (max 1 (min s.terminals.redrawIntervalSecs 3600)))
    rememberDeviceWindow := fromSecs (max 1 (min s.mfa.rememberDeviceDays 90) * 24 * 3600)
    maxDevicesPerIdentity := max 1 (min s.mfa.maxDevicesPerIdentity 64)
    maxShareSecs := max s.sharing.maxDurationSecs 1
    sessionTtl := fromSecs (max s.auth.sessionTtlSecs 60) } := by
  have hslots : 0 < max 1 (min s.terminals.maxSessions 64) := by omega
  have hhours : max 1 (min s.mfa.rememberDeviceDays 90) * 24 < 2 ^ 64 := by omega
  have hwindow : max 1 (min s.mfa.rememberDeviceDays 90) * 24 * 3600 < 2 ^ 64 := by omega
  have hredraw : redrawPeriod s.terminals.redrawIntervalSecs =
      some (if s.terminals.redrawIntervalSecs = 0 then none
        else some (fromSecs (max 1 (min s.terminals.redrawIntervalSecs 3600)))) := by
    rw [redrawPeriod]
    split
    · rfl
    · rw [Checked.clamp_of_le (by decide), Option.map_some]
  rw [sizing, hredraw, Checked.clamp_of_le (by decide), Checked.clamp_of_le (by decide),
    Checked.clamp_of_le (by decide), Checked.clamp_of_le (by decide)]
  simp only [Option.bind_eq_bind, Option.bind_some, Checked.div_of_pos hslots,
    Checked.mul_of_lt hhours, Checked.mul_of_lt hwindow]

/-- The settings never make `from_settings` panic. -/
theorem Config.exists_fromSettings (owner : OwnerInfo) (secret : Option Text) (s : Settings) :
    ∃ sizes, sizing s = some sizes ∧
      Config.fromSettings owner secret s = some (Config.resolve owner secret s sizes) :=
  ⟨_, sizing_eq s, by rw [Config.fromSettings, sizing_eq]; rfl⟩

end Webshell
