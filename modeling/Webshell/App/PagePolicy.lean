import Mathlib.Data.Bool.AllAny
import Webshell.Lib.Base64
import Webshell.Lib.Words

/-!
# The content security policy of the pages

The `Host` header of a request, which may be any bytes that a header can have, becomes part of the
policy that its response carries. How a header value is read as a text is a parameter.

## Main definitions

- `wsSources`, `cspHeader`: as in the source
- `policyDirectives`: the nine directives, for what `connect-src` allows besides the page's origin

## Main results

- `directives_cspHeader`: whatever the `Host` header is, the policy says these nine directives
-/

namespace Webshell

open Text

def isHostChar (c : Char) : Bool := c.isAlphanum || c ∈ ['.', '-', ':', '[', ']']

def isPlausibleHost (host : Text) : Bool :=
  !host.isEmpty && host.byteLength ≤ 255 && host.all isHostChar

/-- The sources for a plausible `Host` header, if there is one. `toStr` is `HeaderValue::to_str`. -/
def wsSources (toStr : List UInt8 → Option Text) (header : Option (List UInt8)) : Text :=
  match header.bind toStr with
  | none => []
  | some host =>
    if isPlausibleHost host then " ws://".toList ++ host ++ " wss://".toList ++ host else []

def cspHeader (nonce ws : Text) : Text :=
  "default-src 'none'; ".toList ++
  "script-src 'self' 'nonce-".toList ++ nonce ++ "'; ".toList ++
  "style-src 'self' 'unsafe-inline'; ".toList ++
  "img-src 'self' data:; ".toList ++
  "font-src 'self'; ".toList ++
  "connect-src 'self'".toList ++ ws ++ "; ".toList ++
  "form-action 'self' https://accounts.google.com; ".toList ++
  "base-uri 'none'; ".toList ++
  "frame-ancestors 'none'".toList

/-- The directives that a policy is meant to have. -/
def policyDirectives (nonce : Text) (connect : List Text) : List (List Text) :=
  [["default-src".toList, "'none'".toList],
    ["script-src".toList, "'self'".toList, "'nonce-".toList ++ nonce ++ "'".toList],
    ["style-src".toList, "'self'".toList, "'unsafe-inline'".toList],
    ["img-src".toList, "'self'".toList, "data:".toList],
    ["font-src".toList, "'self'".toList],
    "connect-src".toList :: "'self'".toList :: connect,
    ["form-action".toList, "'self'".toList, "https://accounts.google.com".toList],
    ["base-uri".toList, "'none'".toList],
    ["frame-ancestors".toList, "'none'".toList]]

/-- A visible character of ASCII that does not end a directive. -/
def isSourceChar (c : Char) : Bool := 0x21 ≤ c.toNat && c.toNat ≤ 0x7e && c ≠ ';'

theorem isSourceChar_of_isAlphanum {c : Char} (h : c.isAlphanum = true) :
    isSourceChar c = true := by
  have hcode := toNat_of_isAlphanum h
  have hne : c ≠ ';' := by
    rintro rfl
    exact absurd h (by decide)
  simp only [isSourceChar, Bool.and_eq_true, decide_eq_true_eq]
  exact ⟨⟨by omega, by omega⟩, hne⟩

theorem isSourceChar_of_isHostChar {c : Char} (h : isHostChar c = true) :
    isSourceChar c = true := by
  rcases Bool.or_eq_true_iff.mp h with halnum | hmark
  · exact isSourceChar_of_isAlphanum halnum
  · have hall := List.all_iff_forall_prop.mp
      (by decide : ['.', '-', ':', '[', ']'].all fun c => decide (isSourceChar c = true))
    exact hall c (of_decide_eq_true hmark)

theorem isSourceChar_of_isUrlSafe {c : Char} (h : Base64.isUrlSafe c = true) :
    isSourceChar c = true := by
  rw [Base64.isUrlSafe, Bool.or_assoc] at h
  rcases Bool.or_eq_true_iff.mp h with halnum | hmark
  · exact isSourceChar_of_isAlphanum halnum
  · rcases Bool.or_eq_true_iff.mp hmark with heq | heq <;> rw [eq_of_beq heq] <;> decide

/-- A source is one word, and ends no directive. -/
theorem words_of_isSourceChar {t : Text} (hne : t ≠ []) (h : ∀ c ∈ t, isSourceChar c = true) :
    words t = [t] ∧ ';' ∉ t := by
  refine ⟨words_eq_singleton hne fun c hc => isWhitespace_of_visible ?_, fun hmem => ?_⟩
  · have hc := h c hc
    simp only [isSourceChar, Bool.and_eq_true, decide_eq_true_eq] at hc
    exact hc.1
  · exact absurd (h ';' hmem) (by decide)

variable (toStr : List UInt8 → Option Text)

/-- The sources for a host are none, or two with the value of the header. -/
theorem wsSources_cases (header : Option (List UInt8)) :
    (wsSources toStr header = [] ∧
        ∀ host, header.bind toStr = some host → isPlausibleHost host = false) ∨
      ∃ value host, header = some value ∧ toStr value = some host ∧ isPlausibleHost host = true ∧
        wsSources toStr header = " ws://".toList ++ host ++ " wss://".toList ++ host := by
  cases hhost : header.bind toStr with
  | none =>
    left
    rw [wsSources, hhost]
    exact ⟨rfl, fun host hsome => by cases hsome⟩
  | some host =>
    obtain ⟨value, hvalue, hstr⟩ := Option.bind_eq_some_iff.mp hhost
    rw [wsSources, hhost]
    dsimp only
    by_cases hallowed : isPlausibleHost host = true
    · exact .inr ⟨value, host, hvalue, hstr, hallowed, if_pos hallowed⟩
    · refine .inl ⟨if_neg hallowed, fun host' heq => ?_⟩
      obtain rfl := Option.some.inj heq
      exact Bool.eq_false_iff.mpr hallowed

theorem isSourceChar_of_isPlausibleHost {host : Text} (h : isPlausibleHost host = true) :
    ∀ c ∈ host, isSourceChar c = true := fun c hc =>
  isSourceChar_of_isHostChar (List.all_eq_true.mp (Bool.and_eq_true_iff.mp h).2 c hc)

/-- The two sources are two words. -/
theorem words_connect {host : Text} (h : ∀ c ∈ host, isSourceChar c = true) :
    words (' ' :: "connect-src 'self'".toList ++
        (" ws://".toList ++ host ++ " wss://".toList ++ host)) =
      ["connect-src".toList, "'self'".toList, "ws://".toList ++ host, "wss://".toList ++ host] ∧
      ';' ∉ " ws://".toList ++ host ++ " wss://".toList ++ host := by
  have hscheme : ∀ scheme : Text, scheme ≠ [] → scheme.all isSourceChar = true →
      words (scheme ++ host) = [scheme ++ host] ∧ ';' ∉ scheme ++ host := by
    intro scheme hne hall
    refine words_of_isSourceChar (List.append_ne_nil_of_left_ne_nil hne _) fun c hc => ?_
    rcases List.mem_append.mp hc with hin | hin
    · exact List.all_eq_true.mp hall c hin
    · exact h c hin
  obtain ⟨hws, hwsEnd⟩ := hscheme "ws://".toList (by decide) (by decide)
  obtain ⟨hwss, hwssEnd⟩ := hscheme "wss://".toList (by decide) (by decide)
  have hspace : " ws://".toList ++ host ++ " wss://".toList ++ host =
      ' ' :: ("ws://".toList ++ host) ++ ' ' :: ("wss://".toList ++ host) := by
    have hone : " ws://".toList = ' ' :: "ws://".toList := by decide
    have htwo : " wss://".toList = ' ' :: "wss://".toList := by decide
    rw [hone, htwo]
    simp only [List.append_assoc, List.cons_append]
  have hself : words (' ' :: "connect-src 'self'".toList) =
      ["connect-src".toList, "'self'".toList] := by decide
  rw [hspace]
  refine ⟨?_, fun hmem => ?_⟩
  · rw [← List.append_assoc, words_append_space, words_append_space, hself, hws, hwss]
    rfl
  · rcases List.mem_append.mp hmem with hin | hin
    · exact hwsEnd (List.mem_of_ne_of_mem (by decide) hin)
    · exact hwssEnd (List.mem_of_ne_of_mem (by decide) hin)

/-- The policy between its semicolons. -/
def policyPieces (nonce ws : Text) : List Text :=
  ["default-src 'none'".toList,
    ' ' :: "script-src 'self'".toList ++ ' ' :: ("'nonce-".toList ++ nonce ++ "'".toList),
    ' ' :: "style-src 'self' 'unsafe-inline'".toList,
    ' ' :: "img-src 'self' data:".toList,
    ' ' :: "font-src 'self'".toList,
    ' ' :: "connect-src 'self'".toList ++ ws,
    ' ' :: "form-action 'self' https://accounts.google.com".toList,
    ' ' :: "base-uri 'none'".toList,
    ' ' :: "frame-ancestors 'none'".toList]

theorem cspHeader_eq (nonce ws : Text) :
    cspHeader nonce ws = [';'].intercalate (policyPieces nonce ws) := by
  have hdefault : "default-src 'none'; ".toList = "default-src 'none'".toList ++ [';', ' '] := by
    decide
  have hscript : "script-src 'self' 'nonce-".toList =
      "script-src 'self'".toList ++ ' ' :: "'nonce-".toList := by decide
  have hquote : "'; ".toList = "'".toList ++ [';', ' '] := by decide
  have hstyle : "style-src 'self' 'unsafe-inline'; ".toList =
      "style-src 'self' 'unsafe-inline'".toList ++ [';', ' '] := by decide
  have himg : "img-src 'self' data:; ".toList = "img-src 'self' data:".toList ++ [';', ' '] := by
    decide
  have hfont : "font-src 'self'; ".toList = "font-src 'self'".toList ++ [';', ' '] := by decide
  have hend : "; ".toList = [';', ' '] := by decide
  have hform : "form-action 'self' https://accounts.google.com; ".toList =
      "form-action 'self' https://accounts.google.com".toList ++ [';', ' '] := by decide
  have hbase : "base-uri 'none'; ".toList = "base-uri 'none'".toList ++ [';', ' '] := by decide
  unfold cspHeader policyPieces
  simp only [hdefault, hscript, hquote, hstyle, himg, hfont, hend, hform, hbase,
    List.intercalate_cons_cons, List.intercalate_singleton, List.append_assoc, List.cons_append,
    List.nil_append]

theorem words_nonce {nonce : Text} (h : nonce.all Base64.isUrlSafe = true) :
    words ("'nonce-".toList ++ nonce ++ "'".toList) =
        ["'nonce-".toList ++ nonce ++ "'".toList] ∧
      ';' ∉ "'nonce-".toList ++ nonce ++ "'".toList := by
  have hne : "'nonce-".toList ++ nonce ++ "'".toList ≠ [] :=
    List.append_ne_nil_of_right_ne_nil _ (by decide)
  refine words_of_isSourceChar hne fun c hc => ?_
  rcases List.mem_append.mp hc with hin | hquote
  · rcases List.mem_append.mp hin with hstart | hnonce
    · exact List.all_eq_true.mp (by decide : "'nonce-".toList.all isSourceChar = true) c hstart
    · exact isSourceChar_of_isUrlSafe (List.all_eq_true.mp h c hnonce)
  · exact List.all_eq_true.mp (by decide : "'".toList.all isSourceChar = true) c hquote

/-- The pieces end where they end in the policy. -/
theorem not_mem_policyPieces {nonce ws : Text} (hnonce : nonce.all Base64.isUrlSafe = true)
    (hws : ';' ∉ ws) : ∀ piece ∈ policyPieces nonce ws, ';' ∉ piece := by
  simp only [policyPieces, List.forall_mem_cons]
  refine ⟨by decide, fun hmem => ?_, by decide, by decide, by decide, fun hmem => ?_, by decide,
    by decide, by decide, List.forall_mem_nil _⟩
  · rcases List.mem_append.mp hmem with hin | hin
    · exact absurd hin (by decide)
    · exact (words_nonce hnonce).2 (List.mem_of_ne_of_mem (by decide) hin)
  · rcases List.mem_append.mp hmem with hin | hin
    · exact absurd hin (by decide)
    · exact hws hin

/-- Their words are those of the directives. -/
theorem words_policyPieces {nonce ws : Text} {connect : List Text}
    (hnonce : nonce.all Base64.isUrlSafe = true)
    (hconnect : words (' ' :: "connect-src 'self'".toList ++ ws) =
      "connect-src".toList :: "'self'".toList :: connect) :
    (policyPieces nonce ws).map words = policyDirectives nonce connect := by
  have hdefault : words "default-src 'none'".toList =
      ["default-src".toList, "'none'".toList] := by decide
  have hself : words (' ' :: "script-src 'self'".toList) =
      ["script-src".toList, "'self'".toList] := by decide
  have hscript : words (' ' :: "script-src 'self'".toList ++
      ' ' :: ("'nonce-".toList ++ nonce ++ "'".toList)) =
      ["script-src".toList, "'self'".toList, "'nonce-".toList ++ nonce ++ "'".toList] := by
    rw [words_append_space, hself, (words_nonce hnonce).1]
    rfl
  have hstyle : words (' ' :: "style-src 'self' 'unsafe-inline'".toList) =
      ["style-src".toList, "'self'".toList, "'unsafe-inline'".toList] := by decide
  have himg : words (' ' :: "img-src 'self' data:".toList) =
      ["img-src".toList, "'self'".toList, "data:".toList] := by decide
  have hfont : words (' ' :: "font-src 'self'".toList) =
      ["font-src".toList, "'self'".toList] := by decide
  have hform : words (' ' :: "form-action 'self' https://accounts.google.com".toList) =
      ["form-action".toList, "'self'".toList, "https://accounts.google.com".toList] := by decide
  have hbase : words (' ' :: "base-uri 'none'".toList) =
      ["base-uri".toList, "'none'".toList] := by decide
  have hframe : words (' ' :: "frame-ancestors 'none'".toList) =
      ["frame-ancestors".toList, "'none'".toList] := by decide
  simp only [policyPieces, policyDirectives, List.map_cons, List.map_nil, hdefault, hscript,
    hstyle, himg, hfont, hconnect, hform, hbase, hframe]

/-- Whatever the `Host` header is, the policy says the nine directives, where `connect-src` is
the page's own origin and the two sockets of the header's value, if that is plausible. -/
theorem directives_cspHeader {nonce : Text} (hnonce : nonce.all Base64.isUrlSafe = true)
    (header : Option (List UInt8)) :
    ∃ connect : List Text,
      ((connect = [] ∧
          ∀ host, header.bind toStr = some host → isPlausibleHost host = false) ∨
        ∃ value host, header = some value ∧ toStr value = some host ∧
          isPlausibleHost host = true ∧
          connect = ["ws://".toList ++ host, "wss://".toList ++ host]) ∧
      directives (cspHeader nonce (wsSources toStr header)) = policyDirectives nonce connect := by
  have hpolicy : ∀ {connect : List Text},
      words (' ' :: "connect-src 'self'".toList ++ wsSources toStr header) =
        "connect-src".toList :: "'self'".toList :: connect → ';' ∉ wsSources toStr header →
      directives (cspHeader nonce (wsSources toStr header)) = policyDirectives nonce connect := by
    intro connect hconnect hend
    have hne : policyPieces nonce (wsSources toStr header) ≠ [] := List.cons_ne_nil _ _
    rw [cspHeader_eq, directives_intercalate hne (not_mem_policyPieces hnonce hend),
      words_policyPieces hnonce hconnect]
  obtain ⟨hnone, hrefused⟩ | ⟨value, host, hvalue, hstr, hhost, hws⟩ :=
    wsSources_cases toStr header
  · refine ⟨[], .inl ⟨rfl, hrefused⟩, hpolicy ?_ ?_⟩
    · rw [hnone, List.append_nil]
      decide
    · rw [hnone]
      exact List.not_mem_nil
  · obtain ⟨hwords, hend⟩ := words_connect (isSourceChar_of_isPlausibleHost hhost)
    refine ⟨_, .inr ⟨value, host, hvalue, hstr, hhost, rfl⟩, ?_⟩
    exact hpolicy (hws ▸ hwords) (hws ▸ hend)

/-- Visible ASCII characters, spaces and tabs. -/
def visibleStr (value : List UInt8) : Option Text :=
  if value.all fun b => (0x20 ≤ b && b < 0x7f) || b == 0x09 then
    some (value.map fun b => Char.ofNat b.toNat)
  else none

/-- A header that tries to add a directive, and one that names a host. -/
theorem directives_cspHeader_hosts :
    directives (cspHeader "c2Vzc2lvbg".toList
        (wsSources visibleStr (some (bytes "a.example; script-src *".toList)))) =
      policyDirectives "c2Vzc2lvbg".toList [] ∧
    directives (cspHeader "c2Vzc2lvbg".toList
        (wsSources visibleStr (some (bytes "a.example:8443".toList)))) =
      policyDirectives "c2Vzc2lvbg".toList
        ["ws://a.example:8443".toList, "wss://a.example:8443".toList] := by
  have hhostile : visibleStr (bytes "a.example; script-src *".toList) =
      some "a.example; script-src *".toList := by decide
  have hnamed : visibleStr (bytes "a.example:8443".toList) = some "a.example:8443".toList := by
    decide
  constructor
  · obtain ⟨connect, ⟨rfl, _⟩ | ⟨value, host, hvalue, hstr, hhost, _⟩, hpolicy⟩ :=
      directives_cspHeader visibleStr (by decide : "c2Vzc2lvbg".toList.all Base64.isUrlSafe = true)
        (some (bytes "a.example; script-src *".toList))
    · exact hpolicy
    · obtain rfl := Option.some.inj hvalue
      obtain rfl := Option.some.inj (hhostile.symm.trans hstr)
      exact absurd hhost (by decide)
  · obtain ⟨connect, ⟨_, hrefused⟩ | ⟨value, host, hvalue, hstr, _, rfl⟩, hpolicy⟩ :=
      directives_cspHeader visibleStr (by decide : "c2Vzc2lvbg".toList.all Base64.isUrlSafe = true)
        (some (bytes "a.example:8443".toList))
    · exact absurd (hrefused _ hnamed) (by decide)
    · obtain rfl := Option.some.inj hvalue
      obtain rfl := Option.some.inj (hnamed.symm.trans hstr)
      exact hpolicy

end Webshell
