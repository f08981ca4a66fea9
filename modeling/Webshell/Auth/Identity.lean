import Webshell.Lib.Text

/-!
# Login identities

Who may log in, written `provider:subject`. A subject is kept trimmed and in lowercase, so what an
identity is written as can be read back.

## Main definitions

- `Identity`: a provider and a normalized subject
- `Identity.new`, `Identity.display`, `Identity.parse`

## Main results

- `Identity.display_injective`: no two identities are written as one text
- `Identity.parse_display_eq`: what is read where an identity was written
-/

namespace Webshell

open Text

inductive Provider
  | local
  | google
  | microsoft
  | apple
deriving DecidableEq

namespace Provider

def asStr : Provider → Text
  | .local => "local".toList
  | .google => "google".toList
  | .microsoft => "microsoft".toList
  | .apple => "apple".toList

def parse (s : Text) : Option Provider :=
  [.local, .google, .microsoft, .apple].find? fun p => s = asStr p

theorem asStr_lowercase (p : Provider) : ∀ c ∈ p.asStr, 'a' ≤ c ∧ c ≤ 'z' := by
  have hall : p.asStr.all (fun c => decide ('a' ≤ c ∧ c ≤ 'z')) = true := by
    cases p <;> decide
  exact fun c hc => of_decide_eq_true (List.all_eq_true.mp hall c hc)

theorem colon_not_mem_asStr (p : Provider) : ':' ∉ p.asStr := by
  cases p <;> decide

theorem parse_asStr (p : Provider) : parse p.asStr = some p := by
  cases p <;> decide

end Provider

variable [Lowercase]

/-- A login identity in normalized form. -/
structure Identity where
  provider : Provider
  subject : Text
  trimmed : subject.trim = subject
  lowered : toLowercase subject = subject
deriving DecidableEq

namespace Identity

def new (provider : Provider) (subject : Text) : Identity where
  provider := provider
  subject := toLowercase subject.trim
  trimmed := trim_toLowercase _ (trim_trim subject)
  lowered := toLowercase_toLowercase _

/-- `Display`: the provider, a colon and the subject. -/
def display (who : Identity) : Text := who.provider.asStr ++ ':' :: who.subject

/-- `FromStr`; `none` stands for the error. Only the first colon separates. -/
def parse (s : Text) : Option Identity := do
  let (provider, subject) ← splitOnce ':' s.trim
  let provider ← Provider.parse (toLowercase provider.trim)
  if subject.trim = [] then none else some (new provider subject)

theorem ext {who who' : Identity} (hprovider : who.provider = who'.provider)
    (hsubject : who.subject = who'.subject) : who = who' := by
  cases who
  cases who'
  cases hprovider
  cases hsubject
  rfl

/-- A subject that is already normalized stays what it is. -/
theorem new_subject (who : Identity) : new who.provider who.subject = who :=
  ext rfl (by simp only [new, who.trimmed, who.lowered])

theorem display_injective : Function.Injective display := by
  intro who who' h
  have hsplit : splitOnce ':' who.display = some (who.provider.asStr, who.subject) :=
    splitOnce_append who.provider.colon_not_mem_asStr
  rw [h, display, splitOnce_append who'.provider.colon_not_mem_asStr, Option.some.injEq,
    Prod.mk.injEq] at hsplit
  obtain ⟨hstr, hsubject⟩ := hsplit
  have hprovider := congrArg Provider.parse hstr
  rw [Provider.parse_asStr, Provider.parse_asStr, Option.some.injEq] at hprovider
  exact ext hprovider.symm hsubject.symm

/-- A written identity begins with a letter and ends in a colon or where its subject does. -/
theorem trim_display (who : Identity) : who.display.trim = who.display := by
  refine trim_eq_self_of_ends (fun c hc => ?_) fun c hc => ?_
  · obtain ⟨c', rest, hcons⟩ : ∃ c' rest, who.provider.asStr = c' :: rest := by
      cases who.provider <;> exact ⟨_, _, rfl⟩
    rw [display, hcons, List.cons_append, List.head?_cons, Option.mem_some] at hc
    have hmem : c ∈ who.provider.asStr := by rw [hcons, ← hc]; exact List.mem_cons_self
    exact isWhitespace_of_asciiLower (who.provider.asStr_lowercase c hmem)
  · cases hsub : who.subject using List.reverseRecOn with
    | nil =>
      rw [display, hsub, List.getLast?_concat, Option.mem_some] at hc
      subst hc
      decide
    | append_singleton init last =>
      rw [display, hsub, ← List.cons_append, ← List.append_assoc, List.getLast?_concat,
        Option.mem_some] at hc
      refine last_trim (t := who.subject) ?_
      rw [who.trimmed, hsub, List.getLast?_concat, Option.mem_some]
      exact hc

/-- A written identity is read back as itself, unless nothing follows the colon. -/
theorem parse_display_eq (who : Identity) :
    parse who.display = if who.subject = [] then none else some who := by
  have hsplit : splitOnce ':' who.display.trim = some (who.provider.asStr, who.subject) := by
    rw [trim_display]
    exact splitOnce_append who.provider.colon_not_mem_asStr
  have hprovider : Provider.parse (toLowercase who.provider.asStr.trim) = some who.provider := by
    have hletters := who.provider.asStr_lowercase
    rw [trim_eq_self fun c hc => isWhitespace_of_asciiLower (hletters c hc),
      toLowercase_ascii _ hletters, Provider.parse_asStr]
  simp only [parse, hsplit, hprovider, Option.bind_eq_bind, Option.bind_some, who.trimmed,
    new_subject]

theorem parse_display_self {who : Identity} (h : who.subject ≠ []) :
    parse who.display = some who := by
  rw [parse_display_eq, if_neg h]

/-- What is read back from a written identity is that identity. -/
theorem parse_display {who who' : Identity} (h : parse who.display = some who') : who' = who := by
  rw [parse_display_eq] at h
  split at h
  · cases h
  · exact (Option.some.inj h).symm

end Identity

end Webshell
