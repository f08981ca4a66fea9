import Webshell.Lib.Base64
import Webshell.Lib.Percent

/-!
# The authorization URL

Where the browser is sent to sign in with Google. The client, the redirect URI and the secrets of
the flow are texts of any characters here; SHA-256 and base64 are parameters.

## Main definitions

- `FlowTexts`, `s256`, `urlencode`, `authorizeUrl`: as in `oidc`
- `authorizeParams`: the parameters that the URL is meant to carry

## Main results

- `authorizeUrl_carries`: it carries them, and nothing else
-/

namespace Webshell.Oidc

open Text

def authEndpoint : Text := "https://accounts.google.com/o/oauth2/v2/auth".toList

/-- The secrets of a sign-in that tie the callback to the browser that started it, as texts. -/
structure FlowTexts where
  state : Text
  nonce : Text
  verifier : Text

/-- The parts of a text that are not unreserved characters are escaped byte by byte. -/
def urlencode (s : Text) : Text := Percent.encode s.bytes

section

variable (sha256 : List UInt8 → List UInt8) (b64 : Base64.Codec)

def s256 (verifier : Text) : Text := b64.encode (sha256 verifier.bytes)

def authorizeUrl (clientId redirectUri : Text) (flow : FlowTexts) : Text :=
  authEndpoint ++ "?client_id=".toList ++ urlencode clientId ++
    "&redirect_uri=".toList ++ urlencode redirectUri ++ "&response_type=code".toList ++
    "&scope=".toList ++ urlencode "openid email profile".toList ++
    "&state=".toList ++ urlencode flow.state ++ "&nonce=".toList ++ urlencode flow.nonce ++
    "&code_challenge=".toList ++ urlencode (s256 sha256 b64 flow.verifier) ++
    "&code_challenge_method=S256".toList ++ "&access_type=online&prompt=select_account".toList

/-- The parameters, with their values as they are. -/
def authorizeParams (clientId redirectUri : Text) (flow : FlowTexts) : List (Text × Text) :=
  [("client_id".toList, clientId), ("redirect_uri".toList, redirectUri),
    ("response_type".toList, "code".toList), ("scope".toList, "openid email profile".toList),
    ("state".toList, flow.state), ("nonce".toList, flow.nonce),
    ("code_challenge".toList, s256 sha256 b64 flow.verifier),
    ("code_challenge_method".toList, "S256".toList), ("access_type".toList, "online".toList),
    ("prompt".toList, "select_account".toList)]

/-- The names of the parameters. -/
def paramNames : List Text :=
  ["client_id".toList, "redirect_uri".toList, "response_type".toList, "scope".toList,
    "state".toList, "nonce".toList, "code_challenge".toList, "code_challenge_method".toList,
    "access_type".toList, "prompt".toList]

theorem map_fst_authorizeParams (clientId redirectUri : Text) (flow : FlowTexts) :
    (authorizeParams sha256 b64 clientId redirectUri flow).map Prod.fst = paramNames := rfl

theorem nodup_authorizeParams (clientId redirectUri : Text) (flow : FlowTexts) :
    ((authorizeParams sha256 b64 clientId redirectUri flow).map Prod.fst).Nodup := by
  rw [map_fst_authorizeParams]
  decide

/-- A query whose names are written as they are. -/
theorem encodeQuery_eq {params : List (Text × Text)}
    (h : ∀ name ∈ params.map Prod.fst, Percent.encode (bytes name) = name) :
    Percent.encodeQuery params =
      ['&'].intercalate (params.map fun p => p.1 ++ '=' :: urlencode p.2) := by
  refine congrArg ['&'].intercalate (List.map_congr_left fun p hp => ?_)
  exact congrArg (· ++ '=' :: urlencode p.2) (h p.1 (List.mem_map_of_mem hp))

/-- What stands after the question mark is the encoded query. -/
theorem authorizeUrl_eq (clientId redirectUri : Text) (flow : FlowTexts) :
    authorizeUrl sha256 b64 clientId redirectUri flow = authEndpoint ++
      '?' :: Percent.encodeQuery (authorizeParams sha256 b64 clientId redirectUri flow) := by
  have hnames : ∀ name ∈ (authorizeParams sha256 b64 clientId redirectUri flow).map Prod.fst,
      Percent.encode (bytes name) = name := by
    rw [map_fst_authorizeParams]
    exact List.all_iff_forall_prop.mp
      (by decide : paramNames.all fun name => decide (Percent.encode (bytes name) = name))
  -- the names and separators that the format string has between the values
  have hclient : "?client_id=".toList = '?' :: "client_id".toList ++ ['='] := by decide
  have hredirect : "&redirect_uri=".toList = '&' :: "redirect_uri".toList ++ ['='] := by decide
  have hresponse : "&response_type=code".toList =
      '&' :: "response_type".toList ++ '=' :: urlencode "code".toList := by decide
  have hscope : "&scope=".toList = '&' :: "scope".toList ++ ['='] := by decide
  have hstate : "&state=".toList = '&' :: "state".toList ++ ['='] := by decide
  have hnonce : "&nonce=".toList = '&' :: "nonce".toList ++ ['='] := by decide
  have hchallenge : "&code_challenge=".toList = '&' :: "code_challenge".toList ++ ['='] := by
    decide
  have hmethod : "&code_challenge_method=S256".toList =
      '&' :: "code_challenge_method".toList ++ '=' :: urlencode "S256".toList := by decide
  have hprompt : "&access_type=online&prompt=select_account".toList =
      '&' :: "access_type".toList ++ '=' :: urlencode "online".toList ++
        '&' :: "prompt".toList ++ '=' :: urlencode "select_account".toList := by decide
  rw [encodeQuery_eq hnames, authorizeUrl, hclient, hredirect, hresponse, hscope, hstate, hnonce,
    hchallenge, hmethod, hprompt]
  simp only [authorizeParams, List.map_cons, List.map_nil, List.intercalate_cons_cons,
    List.intercalate_singleton, List.append_assoc, List.cons_append, List.nil_append]

/-- Split at the first `?`, then at `&` and `=`, and decoded, the URL gives the ten parameters with
their values, whatever characters these have. -/
theorem authorizeUrl_carries (clientId redirectUri : Text) (flow : FlowTexts) :
    ∃ query, splitOnce '?' (authorizeUrl sha256 b64 clientId redirectUri flow) =
        some (authEndpoint, query) ∧
      Percent.decodeQuery query = some (authorizeParams sha256 b64 clientId redirectUri flow) ∧
      ((authorizeParams sha256 b64 clientId redirectUri flow).map Prod.fst).Nodup ∧
      Percent.IsQuery query := by
  have hmark : '?' ∉ authEndpoint := by decide
  refine ⟨_, ?_, Percent.decodeQuery_encodeQuery (List.cons_ne_nil _ _),
    nodup_authorizeParams sha256 b64 clientId redirectUri flow, Percent.isQuery_encodeQuery _⟩
  rw [authorizeUrl_eq]
  exact splitOnce_append hmark

end

end Webshell.Oidc
