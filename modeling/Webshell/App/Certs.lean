import Webshell.App.Settings
import Webshell.Lib.IpAddr

/-!
# Let's Encrypt mode

What must hold of the settings before the server answers HTTPS itself: the certificate is for the
host that the public base URL names, and the listener is the one that Let's Encrypt connects to.

## Main definitions

- `CertError`: why the settings are refused, with its message
- `publicHostname`, `checkBind`, `validate`, `attach`: the functions of `certs`
- `PublicUrl`: the base URLs that name a host for a certificate

## Main results

- `publicHostname_eq_ok_iff`: the base URLs that `public_hostname` takes, and the host it finds
-/

namespace Webshell.Certs

open Text

/-! ## Errors -/

inductive CertError
  | noBaseUrl
  | notHttps (base : Text)
  | userinfo (base : Text)
  | otherPort (port : Text)
  | noHostname (base : Text)
  | ipAddress (host : Text)
  | localhost
  | notDnsName (base host : Text)
  | bindNotSocketAddr (bind : Text)
  | bindPort (port : ℕ)
  | bindLoopback (bind : Text)
  | notEmail (email : Text)

/-- The field of the settings that is at fault. -/
def CertError.field : CertError → Text
  | .bindNotSocketAddr _ | .bindPort _ | .bindLoopback _ => "network.bind".toList
  | .notEmail _ => "certs.contact_email".toList
  | _ => "network.public_base_url".toList

/-- What the message says of the field, where `debug` quotes a text. -/
def CertError.complaint (debug : Text → Text) : CertError → Text
  | .noBaseUrl => " — the certificate hostname is derived from it".toList
  | .notHttps base => " must be https:// when Let's Encrypt is enabled, got ".toList ++ debug base
  | .userinfo base => " ".toList ++ debug base ++
      " must not contain userinfo — use plain https://hostname".toList
  | .otherPort port => (" must use the default https port when Let's Encrypt is enabled " ++
      "(the certificate listener is :443), got :").toList ++ port
  | .noHostname base => " ".toList ++ debug base ++ " has no hostname".toList
  | .ipAddress host => (" must name a DNS hostname when Let's Encrypt is enabled — " ++
      "certificates are not issued for IP addresses (got ").toList ++ debug host ++ ")".toList
  | .localhost =>
      " must name a public DNS hostname when Let's Encrypt is enabled, not localhost".toList
  | .notDnsName base host => " ".toList ++ debug base ++
      " does not name a plain DNS hostname — got ".toList ++ debug host
  | .bindNotSocketAddr bind => " ".toList ++ debug bind ++
      (" must be an IP:port address when Let's Encrypt is enabled, e.g. \"0.0.0.0:443\" or " ++
        "\"[::]:443\"").toList
  | .bindPort port => (" must use port 443 when Let's Encrypt is enabled — TLS-ALPN-01 " ++
      "validation connects to port 443 of the public hostname (got port ").toList ++
      Text.decimal port ++ ")".toList
  | .bindLoopback bind => " ".toList ++ debug bind ++
      (" is loopback — Let's Encrypt must be able to reach this listener; bind 0.0.0.0:443, " ++
        "[::]:443 or a public IP").toList
  | .notEmail email => " ".toList ++ debug email ++ " does not look like an email address".toList

def CertError.message (debug : Text → Text) (e : CertError) : Text :=
  let start :=
    match e with
    | .noBaseUrl => "certs.lets_encrypt_enabled requires ".toList
    | _ => []
  start ++ e.field ++ e.complaint debug

/-- Every message names the field at fault. -/
theorem CertError.field_infix_message (debug : Text → Text) (e : CertError) :
    e.field <:+: e.message debug := ⟨_, _, rfl⟩

/-! ## The functions -/

/-- The authority without the port 443. -/
def hostOfAuthority (authority : Text) : Except CertError Text :=
  match rsplitOnce ':' authority with
  | some (host, port) =>
    if !port.isEmpty && port.all isDigit then
      if port = "443".toList then .ok host else .error (.otherPort port)
    else .ok authority
  | none => .ok authority

def isLabelChar (c : Char) : Bool := c.isAlphanum || c = '-'

def validLabel (label : Text) : Bool := !label.isEmpty && label.all isLabelChar

def checkHost (base host : Text) : Except CertError Text :=
  if host.isEmpty then .error (.noHostname base)
  else if host.head? = some '[' || (Net.parseIpAddr host).isSome then .error (.ipAddress host)
  else if host.map Ascii.toLower = "localhost".toList then .error .localhost
  else if !(host.splitOn '.').all validLabel then .error (.notDnsName base host)
  else .ok (host.map Ascii.toLower)

def publicHostname : Option Text → Except CertError Text
  | none => .error .noBaseUrl
  | some base =>
    match base.trim.dropPrefix? "https://".toList with
    | none => .error (.notHttps base)
    | some rest =>
      let authority := rest.takeWhile (· ≠ '/')
      if '@' ∈ authority then .error (.userinfo base)
      else do checkHost base (← hostOfAuthority authority)

def checkBind (bind : Text) : Except CertError Unit :=
  match Net.parseSocketAddr bind with
  | none => .error (.bindNotSocketAddr bind)
  | some addr =>
    let mappedLoopback :=
      match addr.ip with
      | .v6 v6 => v6.toIpv4Mapped.any (·.isLoopback)
      | .v4 _ => false
    if addr.port ≠ 443 then .error (.bindPort addr.port)
    else if addr.ip.isLoopback || mappedLoopback then .error (.bindLoopback bind)
    else .ok ()

/-- `Path::join`. -/
def joinPath (dir path : Text) : Text :=
  if path.head? = some '/' then path
  else if dir.getLast?.any (· ≠ '/') then dir ++ '/' :: path
  else dir ++ path

def checkContactEmail (email : Option Text) : Except CertError (Option Text) :=
  match (email.map trim).filter fun e => !e.isEmpty with
  | none => .ok none
  | some e => if '@' ∉ e || e.any isWhitespace then .error (.notEmail e) else .ok (some e)

section

variable [Lowercase]

/-- The TLS mode of the settings, if it is enabled and nothing is wrong with it. -/
def validate (s : Settings) (configDir : Text) : Except CertError (Option TlsConfig) :=
  if !s.certs.letsEncryptEnabled then .ok none
  else do
    let hostname ← publicHostname s.network.publicBaseUrl
    checkBind s.network.bind
    let contactEmail ← checkContactEmail s.certs.contactEmail
    return some ⟨hostname, joinPath configDir s.certs.storeDir, s.certs.letsEncryptStaging,
      contactEmail⟩

/-- The cookie is never sent in clear once the server answers HTTPS itself. -/
def attach (config : RuntimeConfig) (tls : Option TlsConfig) : RuntimeConfig :=
  { config with cookieSecure := config.cookieSecure || tls.isSome, tls := tls }

end

/-! ## The grammar -/

/-- Labels of ASCII letters, digits and hyphens, with dots between them. -/
def IsDnsName (name : Text) : Prop :=
  ∃ labels : List Text, labels ≠ [] ∧ (∀ label ∈ labels, label ≠ [] ∧ ∀ c ∈ label, isLabelChar c) ∧
    name = ['.'].intercalate labels

/-- An https URL of a host that can have a certificate, on the port of https. -/
structure PublicUrl where
  name : Text
  port : Text
  path : Text
  isDnsName : IsDnsName name
  not_ipAddr : Net.parseIpAddr name = none
  not_localhost : name.map Ascii.toLower ≠ "localhost".toList
  port_eq : port = [] ∨ port = ":443".toList
  path_eq : path = [] ∨ ∃ rest, path = '/' :: rest

namespace PublicUrl

def authority (url : PublicUrl) : Text := url.name ++ url.port

def origin (url : PublicUrl) : Text := "https://".toList ++ url.authority

def text (url : PublicUrl) : Text := url.origin ++ url.path

def hostname (url : PublicUrl) : Text := url.name.map Ascii.toLower

end PublicUrl

/-- The check of the labels takes the names of the grammar. -/
theorem all_validLabel_iff (host : Text) :
    (host.splitOn '.').all validLabel = true ↔ IsDnsName host := by
  constructor
  · intro hall
    refine ⟨host.splitOn '.', List.splitOn_ne_nil _ _, fun label hlabel => ?_,
      (List.intercalate_splitOn '.').symm⟩
    have hvalid := List.all_eq_true.mp hall label hlabel
    simpa [validLabel] using hvalid
  · rintro ⟨labels, hne, hlabels, rfl⟩
    have hdot : ∀ label ∈ labels, '.' ∉ label := by
      intro label hlabel hmem
      exact absurd ((hlabels label hlabel).2 '.' hmem) (by decide)
    rw [List.splitOn_intercalate '.' hdot hne]
    refine List.all_eq_true.mpr fun label hlabel => ?_
    simpa [validLabel] using hlabels label hlabel

theorem IsDnsName.ne_nil {name : Text} (h : IsDnsName name) : name ≠ [] := by
  rintro rfl
  exact absurd ((all_validLabel_iff []).mpr h) (by decide)

/-- A character that no label has is not in a name, unless it is the dot. -/
theorem IsDnsName.not_mem {name : Text} {c : Char} (h : IsDnsName name)
    (hc : isLabelChar c = false) (hdot : c ≠ '.') : c ∉ name := by
  obtain ⟨labels, -, hlabels, rfl⟩ := h
  intro hmem
  obtain hsep | ⟨label, hlabel, hin⟩ := mem_of_mem_intercalate hmem
  · exact hdot (List.mem_singleton.mp hsep)
  · rw [(hlabels label hlabel).2 c hin] at hc
    cases hc

/-! ### The host -/

/-- What the tests of the host take, and what they make of it. -/
theorem checkHost_eq_ok_iff (base host h : Text) : checkHost base host = .ok h ↔
    IsDnsName host ∧ Net.parseIpAddr host = none ∧ host.map Ascii.toLower ≠ "localhost".toList ∧
      h = host.map Ascii.toLower := by
  constructor
  · intro hok
    rw [checkHost] at hok
    split at hok
    · cases hok
    split at hok
    · cases hok
    split at hok
    · cases hok
    split at hok
    · cases hok
    next hip hlocal hlabels =>
      simp only [Bool.or_eq_true, not_or, Bool.not_eq_true, Option.isSome_eq_false_iff,
        Option.isNone_iff_eq_none] at hip
      simp only [Bool.not_eq_true, Bool.not_eq_false'] at hlabels
      exact ⟨(all_validLabel_iff host).mp hlabels, hip.2, hlocal, (Except.ok.inj hok).symm⟩
  · rintro ⟨hname, hip, hlocal, rfl⟩
    have hbracket : host.head? ≠ some '[' := by
      intro hhead
      exact hname.not_mem (by decide) (by decide) (List.mem_of_head? hhead)
    simp only [checkHost, List.isEmpty_eq_false_iff.mpr hname.ne_nil, hbracket, hip, hlocal,
      (all_validLabel_iff host).mpr hname]
    rfl

/-- The host is the authority, or all of it that stands before the port 443. -/
theorem authority_of_hostOfAuthority {authority host : Text}
    (h : hostOfAuthority authority = .ok host) :
    ∃ port, (port = [] ∨ port = ":443".toList) ∧ authority = host ++ port := by
  rw [hostOfAuthority] at h
  split at h
  · next before port hsplit =>
    split at h
    · split at h
      · next hport =>
        have hsides : authority = before ++ ':' :: port := eq_of_rsplitOnce hsplit
        rw [hport] at hsides
        exact ⟨_, .inr rfl, by rw [← Except.ok.inj h]; exact hsides⟩
      · cases h
    · exact ⟨[], .inl rfl, by rw [← Except.ok.inj h, List.append_nil]⟩
  · exact ⟨[], .inl rfl, by rw [← Except.ok.inj h, List.append_nil]⟩

theorem hostOfAuthority_append {host port : Text} (hcolon : ':' ∉ host)
    (hport : port = [] ∨ port = ":443".toList) :
    hostOfAuthority (host ++ port) = .ok host := by
  rcases hport with rfl | rfl
  · rw [List.append_nil, hostOfAuthority, rsplitOnce_of_not_mem hcolon]
  · have hsplit : rsplitOnce ':' (host ++ ":443".toList) = some (host, "443".toList) :=
      rsplitOnce_append (by decide)
    rw [hostOfAuthority, hsplit]
    rfl

/-! ### The URL -/

namespace PublicUrl

theorem not_mem_authority (url : PublicUrl) {c : Char} (hc : isLabelChar c = false)
    (hdot : c ≠ '.') (hport : c ∉ ":443".toList) : c ∉ url.authority := by
  intro hmem
  rcases List.mem_append.mp hmem with hname | hin
  · exact url.isDnsName.not_mem hc hdot hname
  · rcases url.port_eq with hnone | hhttps
    · rw [hnone] at hin
      cases hin
    · exact hport (hhttps ▸ hin)

/-- The authority ends where the path begins. -/
theorem takeWhile_slash (url : PublicUrl) :
    (url.authority ++ url.path).takeWhile (· ≠ '/') = url.authority := by
  have hall : ∀ c ∈ url.authority, decide (c ≠ '/') = true := by
    intro c hc
    refine decide_eq_true ?_
    rintro rfl
    exact url.not_mem_authority (by decide) (by decide) (by decide) hc
  rw [List.takeWhile_append_of_pos hall]
  rcases url.path_eq with hnone | ⟨rest, hslash⟩
  · rw [hnone, List.takeWhile_nil, List.append_nil]
  · rw [hslash, List.takeWhile_cons_of_neg (by simp), List.append_nil]

end PublicUrl

theorem publicUrl_of_publicHostname {base h : Text} (hok : publicHostname (some base) = .ok h) :
    ∃ url : PublicUrl, base.trim = url.text ∧ h = url.hostname := by
  rw [publicHostname] at hok
  split at hok
  · cases hok
  next rest hrest =>
    obtain ⟨scheme, hbase, hscheme⟩ := List.dropPrefix?_eq_some_iff.mp hrest
    dsimp only at hok
    split at hok
    · cases hok
    cases hhost : hostOfAuthority (rest.takeWhile (· ≠ '/')) with
    | error e =>
      rw [hhost] at hok
      cases hok
    | ok host =>
      rw [hhost] at hok
      obtain ⟨port, hport, hauthority⟩ := authority_of_hostOfAuthority hhost
      obtain ⟨hname, hip, hlocal, rfl⟩ := (checkHost_eq_ok_iff base host h).mp hok
      have hpath : rest.dropWhile (· ≠ '/') = [] ∨
          ∃ after, rest.dropWhile (· ≠ '/') = '/' :: after := by
        cases hdrop : rest.dropWhile (· ≠ '/') with
        | nil => exact .inl rfl
        | cons c after =>
          have hhead := List.head?_dropWhile_not (· ≠ '/') rest
          rw [hdrop] at hhead
          exact .inr ⟨after, by simpa using hhead⟩
      refine ⟨⟨host, port, rest.dropWhile (· ≠ '/'), hname, hip, hlocal, hport, hpath⟩, ?_, rfl⟩
      calc base.trim = "https://".toList ++ rest := by rw [hbase, eq_of_beq hscheme]
        _ = "https://".toList ++ (rest.takeWhile (· ≠ '/') ++ rest.dropWhile (· ≠ '/')) := by
          rw [List.takeWhile_append_dropWhile]
        _ = _ := by
          rw [hauthority, ← List.append_assoc]
          rfl

theorem publicHostname_of_publicUrl {base : Text} (url : PublicUrl) (hbase : base.trim = url.text) :
    publicHostname (some base) = .ok url.hostname := by
  have htext : url.text = "https://".toList ++ (url.authority ++ url.path) :=
    List.append_assoc ..
  have hrest : base.trim.dropPrefix? "https://".toList = some (url.authority ++ url.path) := by
    rw [hbase, htext]
    exact List.dropPrefix?_append_of_beq _ (beq_self_eq_true _)
  have huser : '@' ∉ url.authority := url.not_mem_authority (by decide) (by decide) (by decide)
  have hcolon : ':' ∉ url.name := url.isDnsName.not_mem (by decide) (by decide)
  have hhost : hostOfAuthority url.authority = .ok url.name :=
    hostOfAuthority_append hcolon url.port_eq
  simp only [publicHostname, hrest, url.takeWhile_slash, huser, if_false, hhost]
  exact (checkHost_eq_ok_iff base url.name _).mpr
    ⟨url.isDnsName, url.not_ipAddr, url.not_localhost, rfl⟩

/-- `public_hostname` takes exactly the URLs of the grammar, and finds the name in lower case. -/
theorem publicHostname_eq_ok_iff (base h : Text) : publicHostname (some base) = .ok h ↔
    ∃ url : PublicUrl, base.trim = url.text ∧ h = url.hostname := by
  constructor
  · exact publicUrl_of_publicHostname
  · rintro ⟨url, hbase, rfl⟩
    exact publicHostname_of_publicUrl url hbase

end Webshell.Certs
