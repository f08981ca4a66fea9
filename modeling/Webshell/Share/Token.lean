import Webshell.Lib.Base64
import Webshell.Share.Store

/-!
# Share tokens

A token is the payload `id:slot:expiry:username` of a grant and its MAC under the key of the store,
each in Base64 with a dot between them. The username comes last, so that it may hold colons. The
MAC, the encoding and the random ids are those of a `Mint`.

## Main definitions

- `Mint`: what tokens are made with
- `Mint.encode`, `Mint.tokenFor`: the token of a grant
- `Mint.verify`: what a token says, if its MAC is right
- `Mint.verifyIdeal`: the same with a MAC that is right only for what has been encoded

## Main results

- `Mint.verify_tokenFor`: a token says what its grant says
- `Mint.sealed_of_opened`: a payload has one token whose MAC is right
- `Mint.tokens_decode`: tokens decode to what was encoded, and to nothing else
-/

namespace Webshell.Share

/-- What the tokens of a store are made with: a text encoding, the MAC under the store's key, and
the random bytes of the ids in the order in which they are drawn. -/
structure Mint where
  b64 : Base64.Codec
  mac : List UInt8 → List UInt8
  draw : ℕ → List UInt8

/-- What a token says. -/
structure Claims where
  id : Text
  username : String
  index : ℕ
  expiresAt : ℕ
deriving DecidableEq

/-- The text that is signed. -/
def payload (id : Text) (index exp : ℕ) (username : String) : Text :=
  id ++ ':' :: (Text.decimal index ++ ':' :: (Text.decimal exp ++ ':' :: username.toList))

/-- The fields of a payload: the first three end at a colon, the rest is the username. -/
def parsePayload (bytes : List UInt8) : Option Claims := do
  let text ← Text.fromUtf8 bytes
  let (id, rest) ← Text.splitOnce ':' text
  let (index, rest) ← Text.splitOnce ':' rest
  let index ← Text.parseDecimal 64 index
  let (exp, username) ← Text.splitOnce ':' rest
  let exp ← Text.parseDecimal 64 exp
  some ⟨id, String.ofList username, index, exp⟩

namespace Mint

/-- A random id, `random_token`. -/
def id (m : Mint) (n : ℕ) : Text := m.b64.encode (m.draw n)

/-- A payload and its MAC. -/
def sealed (m : Mint) (bytes : List UInt8) : Text :=
  m.b64.encode bytes ++ '.' :: m.b64.encode (m.mac bytes)

def encode (m : Mint) (id : Text) (index exp : ℕ) (username : String) : Text :=
  m.sealed (payload id index exp username).bytes

def tokenFor (m : Mint) (g : Grant) : Text := m.encode (m.id g.id) g.index g.expiresAt g.username

/-- What is signed in the token of a grant. -/
def payloadFor (m : Mint) (g : Grant) : List UInt8 :=
  (payload (m.id g.id) g.index g.expiresAt g.username).bytes

/-- The payload of a token whose MAC is right. -/
def opened (m : Mint) (token : Text) : Option (List UInt8) := do
  let (p, s) ← Text.splitOnce '.' token
  let bytes ← m.b64.decode p
  let sig ← m.b64.decode s
  if m.mac bytes = sig then some bytes else none

def verify (m : Mint) (token : Text) : Option Claims := (m.opened token).bind parsePayload

/-- What the token of a grant says. -/
def claimsOf (m : Mint) (g : Grant) : Claims := ⟨m.id g.id, g.username, g.index, g.expiresAt⟩

end Mint

/-- The fields of a grant fit their types. -/
def Grant.Fits (g : Grant) : Prop := g.index < 2 ^ 64 ∧ g.expiresAt < 2 ^ 64

theorem parsePayload_bytes {id : Text} {index exp : ℕ} {username : String} (hid : ':' ∉ id)
    (hindex : index < 2 ^ 64) (hexp : exp < 2 ^ 64) :
    parsePayload (payload id index exp username).bytes = some ⟨id, username, index, exp⟩ := by
  have hcolon : ∀ n, ':' ∉ Text.decimal n := Text.not_mem_decimal (by decide)
  rw [parsePayload, Text.fromUtf8_bytes, payload]
  simp only [Option.bind_eq_bind, Option.bind_some, Text.splitOnce_append hid,
    Text.splitOnce_append (hcolon _), Text.parseDecimal_decimal hindex,
    Text.parseDecimal_decimal hexp, String.ofList_toList]

namespace Mint

variable {m : Mint} {g : Grant} {token : Text} {bytes : List UInt8}

theorem tokenFor_eq_sealed : m.tokenFor g = m.sealed (m.payloadFor g) := rfl

theorem opened_sealed (m : Mint) (bytes : List UInt8) : m.opened (m.sealed bytes) = some bytes := by
  have hdot : '.' ∉ m.b64.encode bytes := m.b64.not_mem_encode (by decide) bytes
  rw [opened, sealed, Text.splitOnce_append hdot]
  simp only [Option.bind_eq_bind, Option.bind_some, m.b64.decode_encode, if_true]

/-- A payload has only one token whose MAC is right. -/
theorem sealed_of_opened (h : m.opened token = some bytes) : m.sealed bytes = token := by
  simp only [opened, Option.bind_eq_bind, Option.bind_eq_some_iff] at h
  obtain ⟨⟨p, s⟩, hsplit, bytes', hp, sig, hs, hif⟩ := h
  split at hif
  · next hmac =>
    obtain rfl := Option.some.inj hif
    subst hmac
    rw [(Text.eq_of_splitOnce hsplit).1, sealed, m.b64.encode_of_decode p _ hp,
      m.b64.encode_of_decode s _ hs]
  · cases hif

theorem colon_not_mem_id (m : Mint) (n : ℕ) : ':' ∉ m.id n :=
  m.b64.not_mem_encode (by decide) (m.draw n)

theorem parsePayload_payloadFor (h : g.Fits) :
    parsePayload (m.payloadFor g) = some (m.claimsOf g) :=
  parsePayload_bytes (m.colon_not_mem_id g.id) h.1 h.2

theorem verify_sealed (bytes : List UInt8) : m.verify (m.sealed bytes) = parsePayload bytes := by
  rw [verify, opened_sealed, Option.bind_some]

theorem verify_tokenFor (h : g.Fits) : m.verify (m.tokenFor g) = some (m.claimsOf g) := by
  rw [tokenFor_eq_sealed, verify_sealed, parsePayload_payloadFor h]

end Mint

/-! ## A MAC that cannot be forged -/

/-- The id holds no colon, and the numbers fit their types. -/
def Claims.Fits (c : Claims) : Prop := ':' ∉ c.id ∧ c.index < 2 ^ 64 ∧ c.expiresAt < 2 ^ 64

namespace Mint

variable {m : Mint} {encoded : List Claims} {token : Text} {bytes : List UInt8} {c : Claims}

/-- The text that is signed for some claims. -/
def signedFor (c : Claims) : List UInt8 := (payload c.id c.index c.expiresAt c.username).bytes

/-- The token of some claims. -/
def tokenOf (m : Mint) (c : Claims) : Text := m.encode c.id c.index c.expiresAt c.username

/-- `opened` with an ideal MAC: a payload is accepted only with the tag that was computed for it. -/
def openedIdeal (m : Mint) (encoded : List Claims) (token : Text) : Option (List UInt8) := do
  let (p, s) ← Text.splitOnce '.' token
  let bytes ← m.b64.decode p
  let sig ← m.b64.decode s
  if (bytes, sig) ∈ encoded.map (fun c => (signedFor c, m.mac (signedFor c))) then some bytes
  else none

def verifyIdeal (m : Mint) (encoded : List Claims) (token : Text) : Option Claims :=
  (m.openedIdeal encoded token).bind parsePayload

theorem verify_tokenOf (hc : c.Fits) : m.verify (m.tokenOf c) = some c := by
  show m.verify (m.sealed (signedFor c)) = some c
  rw [verify_sealed]
  exact parsePayload_bytes hc.1 hc.2.1 hc.2.2

/-- Claims that fit have a token of their own. -/
theorem tokenOf_injOn (m : Mint) : Set.InjOn m.tokenOf {c | c.Fits} := by
  intro c hc c' hc' heq
  have hverify : m.verify (m.tokenOf c) = some c := verify_tokenOf hc
  have hverify' : m.verify (m.tokenOf c') = some c' := verify_tokenOf hc'
  rw [heq, hverify'] at hverify
  exact (Option.some.inj hverify).symm

/-- A tag that was computed is right. -/
theorem opened_of_openedIdeal (h : m.openedIdeal encoded token = some bytes) :
    m.opened token = some bytes ∧ bytes ∈ encoded.map signedFor := by
  simp only [openedIdeal, Option.bind_eq_bind, Option.bind_eq_some_iff] at h
  obtain ⟨⟨p, s⟩, hsplit, bytes', hp, sig, hs, hif⟩ := h
  split at hif
  · next hmem =>
    obtain rfl := Option.some.inj hif
    obtain ⟨c, hc, heq⟩ := List.mem_map.mp hmem
    obtain ⟨rfl, rfl⟩ := Prod.mk.inj heq
    refine ⟨?_, List.mem_map_of_mem hc⟩
    simp only [opened, hsplit, hp, hs, Option.bind_eq_bind, Option.bind_some, if_true]
  · cases hif

/-- The token of claims that were encoded is accepted. -/
theorem openedIdeal_tokenOf (hc : c ∈ encoded) :
    m.openedIdeal encoded (m.tokenOf c) = some (signedFor c) := by
  have hdot : '.' ∉ m.b64.encode (signedFor c) := m.b64.not_mem_encode (by decide) _
  have hmem : (signedFor c, m.mac (signedFor c)) ∈
      encoded.map fun c => (signedFor c, m.mac (signedFor c)) :=
    List.mem_map_of_mem hc
  show m.openedIdeal encoded (m.sealed (signedFor c)) = _
  rw [openedIdeal, sealed, Text.splitOnce_append hdot]
  simp only [Option.bind_eq_bind, Option.bind_some, m.b64.decode_encode, if_pos hmem]

/-- What an ideal MAC accepts is one of the tokens that were encoded, as it stands. -/
theorem verifyIdeal_eq_some_iff (h : ∀ c ∈ encoded, c.Fits) :
    m.verifyIdeal encoded token = some c ↔ c ∈ encoded ∧ m.tokenOf c = token := by
  constructor
  · intro hverify
    obtain ⟨bytes, hopened, hparse⟩ := Option.bind_eq_some_iff.mp hverify
    obtain ⟨hreal, hmem⟩ := opened_of_openedIdeal hopened
    obtain ⟨c', hc', rfl⟩ := List.mem_map.mp hmem
    have htoken : m.tokenOf c' = token := sealed_of_opened hreal
    have hfits := h c' hc'
    have hclaims : parsePayload (signedFor c') = some c' :=
      parsePayload_bytes hfits.1 hfits.2.1 hfits.2.2
    obtain rfl : c' = c := Option.some.inj (hclaims.symm.trans hparse)
    exact ⟨hc', htoken⟩
  · rintro ⟨hc, rfl⟩
    have hfits := h c hc
    rw [verifyIdeal, openedIdeal_tokenOf hc, Option.bind_some]
    exact parsePayload_bytes hfits.1 hfits.2.1 hfits.2.2

/-- **Tokens decode to what was encoded**: the id, the slot, the expiry and the username, whatever
characters this one holds, so that tokens of different claims differ. With an ideal MAC the tokens
that `verify` accepts are, byte for byte, the ones that were encoded. -/
theorem tokens_decode (m : Mint) (encoded : List Claims) (h : ∀ c ∈ encoded, c.Fits) :
    (∀ (id : Text) (index exp : ℕ) (username : String), ':' ∉ id → index < 2 ^ 64 → exp < 2 ^ 64 →
      m.verify (m.encode id index exp username) = some ⟨id, username, index, exp⟩) ∧
    Set.InjOn (fun c : Claims => m.encode c.id c.index c.expiresAt c.username) {c | c.Fits} ∧
    (∀ token, m.verifyIdeal encoded token =
      if token ∈ encoded.map m.tokenOf then m.verify token else none) ∧
    ∀ token c, m.verifyIdeal encoded token = some c ↔
      c ∈ encoded ∧ m.encode c.id c.index c.expiresAt c.username = token := by
  refine ⟨fun id index exp username hid hindex hexp => ?_, tokenOf_injOn m, fun token => ?_,
    fun token c => verifyIdeal_eq_some_iff h⟩
  · exact verify_tokenOf (c := ⟨id, username, index, exp⟩) ⟨hid, hindex, hexp⟩
  · apply Option.ext
    intro c
    rw [verifyIdeal_eq_some_iff h]
    split
    · next hmem =>
      obtain ⟨c', hc', rfl⟩ := List.mem_map.mp hmem
      rw [verify_tokenOf (h c' hc'), Option.some.injEq]
      refine ⟨fun hc => tokenOf_injOn m (h c' hc') (h c hc.1) hc.2.symm, ?_⟩
      rintro rfl
      exact ⟨hc', rfl⟩
    · next hmem => exact iff_of_false (fun hc => hmem (List.mem_map.mpr ⟨c, hc⟩)) (by simp)

end Mint

/-- The mint of a store with the key of sixty-four sevens; its MAC is that of the payload
`AAAAAAAAAAAAAAAAAAAAAAAA:3:1060:alice`. -/
def mintOfSevens : Mint where
  b64 := Base64.urlSafeNoPad
  mac _ := [42, 244, 132, 180, 113, 202, 236, 243, 86, 252, 251, 93, 222, 54, 94, 79, 170, 138,
    196, 78, 252, 212, 68, 156, 235, 82, 224, 31, 226, 166, 103, 41]
  draw n := List.replicate 17 0 ++ [UInt8.ofNat n]

def grantOfAlice : Grant := ⟨0, "alice", 3, 1060⟩

theorem tokens_decode_alice :
    mintOfSevens.verifyIdeal [mintOfSevens.claimsOf grantOfAlice]
      (mintOfSevens.tokenFor grantOfAlice) = some (mintOfSevens.claimsOf grantOfAlice) := by
  have hfits : ∀ c ∈ [mintOfSevens.claimsOf grantOfAlice], c.Fits := by
    intro c hc
    obtain rfl := List.mem_singleton.mp hc
    exact ⟨mintOfSevens.colon_not_mem_id 0, by decide, by decide⟩
  have hdecode := Mint.tokens_decode mintOfSevens _ hfits
  exact (hdecode.2.2.2 _ _).mpr ⟨List.mem_singleton.mpr rfl, rfl⟩

end Webshell.Share
