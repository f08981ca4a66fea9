import Webshell.Auth.Identity

/-!
# Configuration of a server run

The part of the resolved configuration that the login handlers read. Durations are in nanoseconds.

## Main definitions

- `Config.permits`: the allowlist
- `Config.localUsable`, `Config.googleUsable`: the login methods that can work
-/

namespace Webshell

open Text

/-- `Duration::from_secs`. -/
def fromSecs (n : ℕ) : ℕ := n * 1000000000

/-- `Duration::as_secs`. -/
def asSecs (d : ℕ) : ℕ := d / 1000000000

variable [Lowercase]

structure Config where
  /-- The allowlist. Every login must match one of these exactly. -/
  users : List Identity
  loginMethods : List Provider
  /-- In the order in which the map is searched. -/
  localPasswords : List (Text × Text)
  mfaRequired : Bool
  googleClientId : Option Text
  googleClientSecret : Option Text
  rememberDevice : Bool
  rememberDeviceWindow : ℕ
  maxDevicesPerIdentity : ℕ
  publicBaseUrl : Option Text
  sessionTtl : ℕ
  sessionPath : Option Text

namespace Config

variable (config : Config)

/-- The stored hash for a local identity. -/
def localPassword (id : Identity) : Option Text :=
  (config.localPasswords.find? fun entry => toLowercase entry.1.trim = id.display).map Prod.snd

def localUsable : Bool :=
  config.loginMethods.contains .local && config.users.any fun u => u.provider = .local

def redirectUri : Option Text :=
  config.publicBaseUrl.map fun base => base ++ "/webshell/oauth/callback".toList

def googleUsable : Bool :=
  config.loginMethods.contains .google && config.googleClientId.isSome &&
    config.googleClientSecret.isSome && config.redirectUri.isSome

def permits (id : Identity) : Bool := config.users.contains id

end Config

end Webshell
