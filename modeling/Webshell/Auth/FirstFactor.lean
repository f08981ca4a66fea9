import Webshell.Auth.Identity

/-!
# The first factor

A password against its stored value, and the claims of the ID token that Google's token endpoint
answers a code with. The two hash formats are parameters.

## Main definitions

- `LocalAuth.verify`: a password against a hash, or against a stored password
- `Oidc.Flow`: the secrets of one sign-in
- `Oidc.exchange`: the identity that an ID token proves
-/

namespace Webshell

open Text

namespace LocalAuth

/-- The password hash formats: does the hash match? `none` for one that cannot be checked. -/
structure Hashers where
  bcrypt : Text → Text → Option Bool
  argon2 : Text → Text → Option Bool

/-- Anything shaped like `$id$...` counts as a hash. -/
def looksHashed (stored : Text) : Bool :=
  match stored.trim.splitOn '$' with
  | [] :: (_ :: _) :: _ :: _ => true
  | _ => false

/-- `none` stands for the error: a malformed hash is never a wrong password. -/
def verify (hashers : Hashers) (stored password : Text) : Option Bool :=
  let stored := stored.trim
  if !looksHashed stored then some (stored == password)
  else if ["$2a$", "$2b$", "$2y$"].any fun p => p.toList.isPrefixOf stored then
    hashers.bcrypt password stored
  else hashers.argon2 password stored

end LocalAuth

namespace Oidc

/-- The per-login secrets of a sign-in, drawn as tokens. -/
structure Flow where
  state : ℕ
  nonce : ℕ
  verifier : ℕ
deriving DecidableEq

/-- `Flow::new`, from the next of the tokens it draws. -/
def Flow.new (token : ℕ) : Flow := ⟨token, token + 1, token + 2⟩

/-- The claims of an ID token, as decoded from the answer of the token endpoint. -/
structure Claims where
  iss : Text
  aud : Text
  exp : ℕ
  sub : Text
  nonce : Option ℕ
  email : Option Text
  emailVerified : Bool

def issuers : List Text :=
  ["https://accounts.google.com".toList, "accounts.google.com".toList]

def validate (claims : Claims) (clientId : Text) (flow : Flow) (now : ℕ) : Bool :=
  issuers.contains claims.iss && claims.aud == clientId && !(claims.exp ≤ now : Bool) &&
    claims.nonce == some flow.nonce && claims.emailVerified

variable [Lowercase]

/-- A verified Google login. -/
structure Verified where
  identity : Identity
  /-- Google's stable subject for this account. -/
  sub : Text

/-- What the answer to a code proves; `none` also where there is no answer. -/
def exchange (answer : Option Claims) (clientId : Text) (flow : Flow) (now : ℕ) :
    Option Verified := do
  let claims ← answer
  if validate claims clientId flow now then
    let email ← claims.email
    some ⟨.new .google email, claims.sub⟩
  else none

end Oidc

end Webshell
