import Webshell.App.Certs

/-!
# One host for the certificate and the links

The hostname of the certificate comes from the trimmed base URL; the resolved configuration keeps
the base URL without its trailing slashes, for the redirect URI, the share links and the origins
that are allowed. They name one host, on the condition that nothing would have been trimmed.

## Main definitions

- `shareUrl`: the link of a share
- `OneHost`: what carries the host of the certificate
- `NoMargins`: no whitespace at the ends of a base URL, trailing slashes apart

## Main results

- `oneHost_iff`: when the certificate and the links name one host
- `redirectUri_of_spaced`: a base URL that gets a certificate, and a redirect URI without a scheme
-/

namespace Webshell

open Text Certs

/-! ## Base URLs -/

/-- Whitespace neither at the start, nor at the end before the trailing slashes. -/
def NoMargins (base : Text) : Prop :=
  (∀ c ∈ base.head?, isWhitespace c = false) ∧
    ∀ c ∈ (base.reverse.dropWhile (· = '/')).head?, isWhitespace c = false

/-- It is so exactly if there is nothing left to trim once the slashes are gone. -/
theorem trim_trimEndSlashes_iff (base : Text) :
    trim (trimEndSlashes base) = trimEndSlashes base ↔ NoMargins base := by
  have hlast : (trimEndSlashes base).getLast? = (base.reverse.dropWhile (· = '/')).head? := by
    rw [trimEndSlashes, List.rdropWhile, List.getLast?_reverse]
  rw [trim_eq_self_iff, hlast, NoMargins]
  refine and_congr_left fun _ => ⟨fun h c hc => ?_, fun h c hc => h c ?_⟩
  · have hpre : trimEndSlashes base <+: base := List.rdropWhile_prefix ..
    cases hkept : trimEndSlashes base with
    | nil =>
      have hslash := List.rdropWhile_eq_nil_iff.mp hkept c (List.mem_of_head? hc)
      rw [of_decide_eq_true hslash]
      decide
    | cons d rest =>
      rw [hkept] at hpre h
      obtain ⟨after, rfl⟩ := hpre
      exact h c hc
  · obtain ⟨after, hafter⟩ : trimEndSlashes base <+: base := List.rdropWhile_prefix ..
    rw [← hafter, List.head?_append, Option.mem_def.mp hc]
    rfl

theorem trim_of_noMargins {base : Text} (h : NoMargins base) : trim base = base := by
  refine trim_eq_self_of_ends h.1 fun c hc => ?_
  by_cases hslash : c = '/'
  · rw [hslash]
    decide
  · refine h.2 c ?_
    rw [← List.head?_reverse] at hc
    cases hrev : base.reverse with
    | nil =>
      rw [hrev] at hc
      cases hc
    | cons d rest =>
      rw [hrev, List.head?_cons, Option.mem_some] at hc
      rw [List.dropWhile_cons_of_neg (by simpa [hc] using hslash), List.head?_cons, hc]
      rfl

theorem trimEndSlashes_append {t u : Text} (ht : ∀ c ∈ t.getLast?, c ≠ '/') :
    trimEndSlashes (t ++ u) = t ++ trimEndSlashes u := by
  have hself : t.reverse.dropWhile (· = '/') = t.reverse := by
    cases hrev : t.reverse with
    | nil => rfl
    | cons c rest =>
      have hne : c ≠ '/' := ht c (by rw [← List.head?_reverse, hrev]; rfl)
      exact List.dropWhile_cons_of_neg (by simpa using hne)
  simp only [trimEndSlashes, List.rdropWhile, List.reverse_append, List.dropWhile_append, hself]
  split
  · next hempty => simp [List.isEmpty_iff.mp hempty]
  · simp

theorem splitScheme_https (t : Text) :
    App.splitScheme ("https://".toList ++ t) = some ("https".toList, t) := by
  simp [App.splitScheme]

namespace Certs.PublicUrl

/-- The URL with another path. -/
def withPath (url : PublicUrl) (path : Text) (h : path = [] ∨ ∃ rest, path = '/' :: rest) :
    PublicUrl := { url with path := path, path_eq := h }

theorem last_origin (url : PublicUrl) {c : Char} (hc : c ∈ url.origin.getLast?) : c ≠ '/' := by
  have hne : url.authority ≠ [] := by
    intro hnil
    exact url.isDnsName.ne_nil (List.append_eq_nil_iff.mp hnil).1
  have hlast : url.origin.getLast? = url.authority.getLast? := List.getLast?_append_of_ne_nil _ hne
  rw [hlast] at hc
  have hmem : c ∈ url.authority := List.mem_of_getLast? hc
  intro hslash
  rw [hslash] at hmem
  exact url.not_mem_authority (by decide) (by decide) (by decide) hmem

/-- What is kept of the URL is the URL with what is kept of its path. -/
theorem trimEndSlashes_text (url : PublicUrl) :
    ∃ kept : PublicUrl, kept.hostname = url.hostname ∧ trimEndSlashes url.text = kept.text := by
  have hpath : trimEndSlashes url.path = [] ∨ ∃ rest, trimEndSlashes url.path = '/' :: rest := by
    have hpre : trimEndSlashes url.path <+: url.path := List.rdropWhile_prefix ..
    rcases url.path_eq with hnone | ⟨rest, hrest⟩
    · rw [hnone] at hpre ⊢
      exact .inl (List.prefix_nil.mp hpre)
    · rw [hrest] at hpre ⊢
      exact (List.prefix_cons_iff.mp hpre).imp_right fun ⟨after, hafter, _⟩ => ⟨after, hafter⟩
  exact ⟨url.withPath (trimEndSlashes url.path) hpath, rfl,
    trimEndSlashes_append fun _ hc => url.last_origin hc⟩

theorem normalizeOrigin_text (url : PublicUrl) (h : url.text.trim = url.text) :
    normalizeOrigin url.text = url.origin := by
  have htext : url.text = "https://".toList ++ (url.authority ++ url.path) :=
    List.append_assoc ..
  have hsplit : App.splitScheme url.text = some ("https".toList, url.authority ++ url.path) :=
    htext ▸ splitScheme_https _
  simp only [normalizeOrigin, h, hsplit]
  have hscheme : "https".toList ++ "://".toList = "https://".toList := by decide
  rw [url.takeWhile_slash, hscheme]
  rfl

end Certs.PublicUrl

/-! ## The links -/

/-- A URL on the host of a certificate, without anything around it. -/
def NamesHost (url hostname : Text) : Prop :=
  ∃ named : PublicUrl, named.text = url ∧ named.hostname = hostname

/-- A path after the base URL leaves the host as it is. -/
theorem Certs.PublicUrl.namesHost_append (url : PublicUrl) {path : Text}
    (h : path.head? = some '/') : NamesHost (url.text ++ path) url.hostname := by
  obtain ⟨rest, rfl⟩ : ∃ rest, path = '/' :: rest := by
    cases path with
    | nil => cases h
    | cons c rest => exact ⟨rest, by rw [Option.some.inj h]⟩
  have hpath : url.path ++ '/' :: rest = [] ∨ ∃ after, url.path ++ '/' :: rest = '/' :: after := by
    rcases url.path_eq with hnone | ⟨before, hbefore⟩
    · exact .inr ⟨rest, by rw [hnone, List.nil_append]⟩
    · exact .inr ⟨before ++ '/' :: rest, by rw [hbefore, List.cons_append]⟩
  exact ⟨url.withPath _ hpath, (List.append_assoc ..).symm, rfl⟩

section

variable [Lowercase]

def shareUrl (config : Config) (token : Text) : Text :=
  let path := "/webshell/public/access?token=".toList ++ token
  match config.publicBaseUrl with
  | some base => base ++ path
  | none => path

/-- What carries the host of the certificate: the base URL, the redirect URI, the share links, and
an origin that terminals may be opened from. -/
structure OneHost (config : RuntimeConfig) (hostname : Text) : Prop where
  base : ∃ base, config.publicBaseUrl = some base ∧ base.trim = base ∧ NamesHost base hostname
  redirect : ∃ uri, config.redirectUri = some uri ∧ NamesHost uri hostname
  share : ∀ token, NamesHost (shareUrl config.toConfig token) hostname
  origin : ∃ origin ∈ config.allowedOrigins, NamesHost origin hostname ∧
    ∀ host, App.originAllowed config.handlerSettings (some origin) host = true

theorem publicBaseUrl_of_fromSettings {owner : OwnerInfo} {secret : Option Text} {s : Settings}
    {config : RuntimeConfig} (h : Config.fromSettings owner secret s = some config) :
    config.publicBaseUrl = s.network.publicBaseUrl.map trimEndSlashes := by
  obtain ⟨sizes, _, rfl⟩ := Option.map_eq_some_iff.mp h
  rfl

/-- The origin of the base URL is allowed. -/
theorem mem_allowedOrigins {owner : OwnerInfo} {secret : Option Text} {s : Settings}
    {config : RuntimeConfig} (h : Config.fromSettings owner secret s = some config) {base : Text}
    (hbase : config.publicBaseUrl = some base) (hne : normalizeOrigin base ≠ []) :
    normalizeOrigin base ∈ config.allowedOrigins := by
  rw [publicBaseUrl_of_fromSettings h] at hbase
  obtain ⟨sizes, _, rfl⟩ := Option.map_eq_some_iff.mp h
  change normalizeOrigin base ∈ keepFirst (((s.network.allowedOrigins ++
    (s.network.publicBaseUrl.map trimEndSlashes).toList).map normalizeOrigin).filter _)
  rw [mem_keepFirst, List.mem_filter, hbase]
  refine ⟨List.mem_map_of_mem (List.mem_append_right _ ?_), ?_⟩
  · exact List.mem_singleton.mpr rfl
  · simpa using hne

theorem originAllowed_of_mem {config : RuntimeConfig} {origin : Text}
    (h : origin ∈ config.allowedOrigins) (host : Option Text) :
    App.originAllowed config.handlerSettings (some origin) host = true := by
  have hany : config.handlerSettings.allowedOrigins.any
      (fun allowed => App.originMatches allowed origin) = true :=
    List.any_eq_true.mpr ⟨origin, h, by simp [App.originMatches]⟩
  exact if_pos hany

/-- The base URL of a TLS mode names its host, once trimmed. -/
theorem publicUrl_of_validate {s : Settings} {configDir : Text} {tls : TlsConfig}
    (h : validate s configDir = .ok (some tls)) :
    ∃ base, s.network.publicBaseUrl = some base ∧
      ∃ url : PublicUrl, base.trim = url.text ∧ tls.hostname = url.hostname := by
  rw [validate] at h
  split at h
  · cases h
  cases hbase : s.network.publicBaseUrl with
  | none =>
    rw [hbase] at h
    cases h
  | some base =>
    refine ⟨base, rfl, ?_⟩
    rw [hbase] at h
    cases hhost : publicHostname (some base) with
    | error e =>
      rw [hhost] at h
      cases h
    | ok hostname =>
      rw [hhost] at h
      cases hbind : checkBind s.network.bind with
      | error e =>
        rw [hbind] at h
        cases h
      | ok _ =>
        rw [hbind] at h
        cases hemail : checkContactEmail s.certs.contactEmail with
        | error e =>
          rw [hemail] at h
          cases h
        | ok contactEmail =>
          rw [hemail] at h
          obtain rfl := Option.some.inj (Except.ok.inj h)
          exact publicUrl_of_publicHostname hhost

/-- A base URL of the grammar makes everything carry its host. -/
theorem oneHost_of_publicUrl {owner : OwnerInfo} {secret : Option Text} {s : Settings}
    {config : RuntimeConfig} (hconfig : Config.fromSettings owner secret s = some config)
    {url : PublicUrl} (hbase : config.publicBaseUrl = some url.text)
    (htrim : url.text.trim = url.text) : OneHost config url.hostname where
  base := ⟨url.text, hbase, htrim, url, rfl, rfl⟩
  redirect := by
    refine ⟨url.text ++ "/webshell/oauth/callback".toList, ?_, url.namesHost_append (by decide)⟩
    rw [Config.redirectUri, hbase, Option.map_some]
  share token := by
    simp only [shareUrl, hbase]
    exact url.namesHost_append rfl
  origin := by
    have hnorm := url.normalizeOrigin_text htrim
    have hne : url.origin ≠ [] := List.append_ne_nil_of_left_ne_nil (by decide) _
    have hallowed : url.origin ∈ config.allowedOrigins :=
      hnorm ▸ mem_allowedOrigins hconfig hbase (hnorm ▸ hne)
    exact ⟨url.origin, hallowed, ⟨url.withPath [] (.inl rfl), List.append_nil _, rfl⟩,
      originAllowed_of_mem hallowed⟩

/-- Turning the TLS mode on changes none of it. -/
theorem OneHost.attach {config : RuntimeConfig} {hostname : Text} (h : OneHost config hostname)
    (tls : Option TlsConfig) : OneHost (attach config tls) hostname :=
  ⟨h.base, h.redirect, h.share, h.origin⟩

/-- The certificate and the links name one host exactly if the base URL has no margins. -/
theorem oneHost_iff {owner : OwnerInfo} {secret : Option Text} {s : Settings} {configDir : Text}
    {tls : TlsConfig} {config : RuntimeConfig} (hvalid : validate s configDir = .ok (some tls))
    (hconfig : Config.fromSettings owner secret s = some config) :
    OneHost config tls.hostname ↔ ∀ base ∈ s.network.publicBaseUrl, NoMargins base := by
  obtain ⟨base, hbase, url, hurl, hhost⟩ := publicUrl_of_validate hvalid
  have hkeeps : config.publicBaseUrl = some (trimEndSlashes base) := by
    rw [publicBaseUrl_of_fromSettings hconfig, hbase, Option.map_some]
  constructor
  · intro hone b hb
    obtain ⟨kept, hkept, htrim, _⟩ := hone.base
    rw [hbase, Option.mem_some] at hb
    rw [hkeeps] at hkept
    rw [← hb, ← trim_trimEndSlashes_iff, Option.some.inj hkept]
    exact htrim
  · intro hall
    have hmargins : NoMargins base := hall base hbase
    rw [trim_of_noMargins hmargins] at hurl
    obtain ⟨kept, hsame, htext⟩ := url.trimEndSlashes_text
    rw [← hurl] at htext
    have htrim : kept.text.trim = kept.text := htext ▸ (trim_trimEndSlashes_iff base).mpr hmargins
    rw [hhost, ← hsame]
    exact oneHost_of_publicUrl hconfig (hkeeps.trans (congrArg some htext)) htrim

end

/-! ### A space before the URL -/

open Text.Ascii

/-- Let's Encrypt mode for a base URL, on all addresses. -/
def servedAt (base : Text) : Settings where
  network := { bind := "0.0.0.0:443".toList, publicBaseUrl := some base }
  certs := { letsEncryptEnabled := true }

def certificateOf (hostname : Text) : TlsConfig :=
  ⟨hostname, "/etc/webshell/certs".toList, false, none⟩

theorem oneHost_of_slash :
    ∃ config, Config.fromSettings ⟨[], [], []⟩ none
        (servedAt "https://Shell.example.com:443/web/".toList) = some config ∧
      OneHost config "shell.example.com".toList := by
  obtain ⟨sizes, _, hconfig⟩ := Config.exists_fromSettings ⟨[], [], []⟩ none
    (servedAt "https://Shell.example.com:443/web/".toList)
  have hvalid : validate (servedAt "https://Shell.example.com:443/web/".toList)
      "/etc/webshell".toList = .ok (some (certificateOf "shell.example.com".toList)) := by rfl
  refine ⟨_, hconfig, (oneHost_iff hvalid hconfig).mpr fun base hbase => ?_⟩
  obtain rfl := Option.some.inj hbase
  have hhead : "https://Shell.example.com:443/web/".toList.head? = some 'h' := by decide
  have hlast : ("https://Shell.example.com:443/web/".toList.reverse.dropWhile (· = '/')).head? =
      some 'b' := by decide
  rw [NoMargins, hhead, hlast]
  refine ⟨fun c hc => ?_, fun c hc => ?_⟩
  · obtain rfl := Option.some.inj hc
    decide
  · obtain rfl := Option.some.inj hc
    decide

/-- A space before the URL: there is a certificate, and a redirect URI that starts with it. -/
theorem redirectUri_of_spaced :
    ∃ config, validate (servedAt " https://shell.example.com".toList) "/etc/webshell".toList =
        .ok (some (certificateOf "shell.example.com".toList)) ∧
      Config.fromSettings ⟨[], [], []⟩ none (servedAt " https://shell.example.com".toList) =
        some config ∧
      config.redirectUri = some " https://shell.example.com/webshell/oauth/callback".toList ∧
      ¬ OneHost config "shell.example.com".toList := by
  obtain ⟨sizes, _, hconfig⟩ := Config.exists_fromSettings ⟨[], [], []⟩ none
    (servedAt " https://shell.example.com".toList)
  have hbase := publicBaseUrl_of_fromSettings hconfig
  have hspaced : (servedAt " https://shell.example.com".toList).network.publicBaseUrl.map
      trimEndSlashes = some " https://shell.example.com".toList := by decide
  rw [hspaced] at hbase
  refine ⟨_, by rfl, hconfig, ?_, fun hone => ?_⟩
  · rw [Config.redirectUri, hbase]
    decide
  · obtain ⟨base, hkept, htrim, _⟩ := hone.base
    obtain rfl := Option.some.inj (hbase.symm.trans hkept)
    exact absurd htrim (by decide)

end Webshell
