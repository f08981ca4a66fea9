import Webshell.Auth.Config
import Webshell.Lib.CaseMapping

/-!
# Password keys

A key of the password table is looked up by its trimmed lowercase as a whole; an entry of the
allowlist is read part by part. The two agree on a key, if nothing stands next to its colon that
only one of them takes away.

## Main definitions

- `LookedUpAs`: what `local_password` compares a key with
- `Tidy`: a local key with no whitespace beside its colon, a subject, and no capital sigma that
  makes a word at the start of the subject
- `Config.KeysNamePeople`: the password table finds an identity exactly by the keys that name it

## Main results

- `lookedUpAs_iff_parse_iff`: a key is looked up as who it names exactly if it is tidy
- `keysNamePeople_iff`: the same for a whole table
- `spaced_key_is_lost`: a key that names somebody who is not found by it
-/

namespace Webshell

open Text

section
variable [CaseTables]

/-- The key passes the test of `local_password`. -/
def LookedUpAs (key : Text) (who : Identity) : Prop := toLowercase key.trim = who.display

/-- If what stands before the first colon reads `local`, then it ends at the colon, and the subject
begins there. -/
def Tidy (key : Text) : Prop :=
  ∀ provider subject, splitOnce ':' key.trim = some (provider, subject) →
    Provider.parse (toLowercase provider.trim) = some .local →
    (provider.trim = provider ↔ subject ≠ []) ∧ subject.trim = subject ∧
      leadingSigma subject = false

/-- Somebody local has a password exactly if a key names them, and it is the value of these keys,
if they have one value; every key is looked up as who it names. -/
def Config.KeysNamePeople (config : Config) : Prop :=
  (∀ who : Identity, who.provider = .local →
    ((config.localPassword who).isSome = true ↔
      ∃ entry ∈ config.localPasswords, Identity.parse entry.1 = some who) ∧
    ∀ value, (∃ entry ∈ config.localPasswords, Identity.parse entry.1 = some who) →
      (∀ entry ∈ config.localPasswords, Identity.parse entry.1 = some who → entry.2 = value) →
      config.localPassword who = some value) ∧
  ∀ entry ∈ config.localPasswords, ∀ who : Identity, who.provider = .local →
    (LookedUpAs entry.1 who ↔ Identity.parse entry.1 = some who)

/-! ## Both readings of a key -/

/-- Nothing but `local` in some letter case is lowered to it. -/
theorem letters_of_lowerIn {before t after : Text}
    (h : lowerIn before t after = Provider.asStr .local) :
    (∀ c ∈ t, c.toNat < 128 ∧ c.isAlpha = true) ∧ t ≠ [] ∧ t.trim = t ∧
      toLowercase t = Provider.asStr .local := by
  have hall := List.all_iff_forall_prop.mp (by decide : (Provider.asStr .local).all fun d =>
    decide (('a' ≤ d ∧ d ≤ 'z') ∧ d ≠ 'i' ∧ d ≠ 'k'))
  rw [← h] at hall
  have hletters := isAlpha_of_lowerIn hall
  refine ⟨hletters, ?_, trim_eq_self fun c hc => ?_, ?_⟩
  · rintro rfl
    cases h
  · refine Bool.eq_false_iff.mpr fun hspace => ?_
    obtain ⟨d, hd, ⟨_, hlower⟩ | ⟨rfl, _⟩⟩ := exists_mem_lowerIn hc before after
    · rw [CaseTables.lower_whitespace c hspace, List.mem_singleton] at hlower
      subst hlower
      rw [isWhitespace_of_asciiLower (hall d hd).1] at hspace
      cases hspace
    · exact absurd hspace (by decide)
  · rw [← h]
    exact (lowerIn_of_isAlpha (fun c hc => (hletters c hc).1) before after).symm

/-- The lowercase of a key, part by part. -/
theorem toLowercase_key (provider subject : Text) :
    toLowercase (provider ++ ':' :: subject) =
      lowerIn [] provider (':' :: subject) ++
        ':' :: lowerIn (':' :: provider.reverse) subject [] := by
  have hcolon : lowerIn provider.reverse (':' :: subject) [] =
      ':' :: lowerIn (':' :: provider.reverse) subject [] := by
    rw [lowerIn, lowerChar, if_neg (by decide), CaseTables.lower_ascii ':' (by decide)]
    rfl
  refine (lowerIn_append [] provider (':' :: subject) []).trans ?_
  rw [List.append_nil, List.append_nil, hcolon]

theorem lookedUpAs_iff {key provider subject : Text} {who : Identity}
    (hkey : splitOnce ':' key.trim = some (provider, subject)) (hwho : who.provider = .local) :
    LookedUpAs key who ↔ lowerIn [] provider (':' :: subject) = Provider.asStr .local ∧
      lowerIn (':' :: provider.reverse) subject [] = who.subject := by
  obtain ⟨htrim, hcolon⟩ := eq_of_splitOnce hkey
  have hlowered : ':' ∉ lowerIn [] provider (':' :: subject) := fun hmem =>
    hcolon (mem_of_mem_lowerIn hmem (by decide) (by decide))
  rw [LookedUpAs, htrim, toLowercase_key, Identity.display, hwho]
  constructor
  · intro heq
    have hsplit := splitOnce_append (u := lowerIn (':' :: provider.reverse) subject []) hlowered
    rw [heq, splitOnce_append (Provider.colon_not_mem_asStr .local), Option.some.injEq,
      Prod.mk.injEq] at hsplit
    exact ⟨hsplit.1.symm, hsplit.2.symm⟩
  · rintro ⟨hprovider, hsubject⟩
    rw [hprovider, hsubject]

/-- A key without a colon is nobody's. -/
theorem not_lookedUpAs {key : Text} (hkey : splitOnce ':' key.trim = none) (who : Identity) :
    ¬LookedUpAs key who := by
  intro h
  have hcolon : ':' ∉ key.trim := fun hmem => by
    rw [splitOnce, if_pos hmem] at hkey
    cases hkey
  have hdisplay : ':' ∈ who.display := List.mem_append_right _ List.mem_cons_self
  rw [← h] at hdisplay
  exact hcolon (mem_of_mem_lowerIn hdisplay (by decide) (by decide))

theorem parse_eq_some_iff {key provider subject : Text} {who : Identity}
    (hkey : splitOnce ':' key.trim = some (provider, subject)) (hwho : who.provider = .local) :
    Identity.parse key = some who ↔
      Provider.parse (toLowercase provider.trim) = some .local ∧ subject.trim ≠ [] ∧
        Identity.new .local subject = who := by
  simp only [Identity.parse, hkey, Option.bind_eq_bind, Option.bind_some]
  constructor
  · intro h
    obtain ⟨p, hp, hnew⟩ := Option.bind_eq_some_iff.mp h
    split at hnew
    · cases hnew
    next hsubject =>
      obtain rfl := Option.some.inj hnew
      obtain rfl : p = .local := hwho
      exact ⟨hp, hsubject, rfl⟩
  · rintro ⟨hp, hsubject, rfl⟩
    rw [hp, Option.bind_some, if_neg hsubject]

omit [CaseTables] in
/-- What follows the colon of a trimmed key is all whitespace only if it is nothing. -/
theorem subject_trim_ne_nil {key provider subject : Text}
    (hkey : splitOnce ':' key.trim = some (provider, subject)) (hne : subject ≠ []) :
    subject.trim ≠ [] := by
  obtain ⟨htrim, _⟩ := eq_of_splitOnce hkey
  intro hnil
  have hlast : subject.getLast hne ∈ key.trim.getLast? := by
    rw [htrim, List.getLast?_append_of_ne_nil _ (List.cons_ne_nil _ _),
      List.getLast?_cons_of_ne_nil hne, List.getLast?_eq_getLast_of_ne_nil hne]
    rfl
  have hspace := trim_eq_nil_iff.mp hnil _ (List.getLast_mem hne)
  rw [last_trim hlast] at hspace
  cases hspace

omit [CaseTables] in
/-- The first character of a subject that is no trimmed text is whitespace. -/
theorem exists_head_of_trim_ne {key provider subject : Text}
    (hkey : splitOnce ':' key.trim = some (provider, subject)) (hne : subject.trim ≠ subject) :
    ∃ c rest, subject = c :: rest ∧ isWhitespace c = true := by
  obtain ⟨htrim, _⟩ := eq_of_splitOnce hkey
  cases subject with
  | nil => exact absurd rfl hne
  | cons c rest =>
    refine ⟨c, rest, rfl, ?_⟩
    by_contra hc
    refine hne (trim_eq_self_iff.mpr ⟨fun d hd => ?_, fun d hd => ?_⟩)
    · rw [List.head?_cons, Option.mem_some] at hd
      rw [← hd]
      exact Bool.eq_false_iff.mpr hc
    · refine last_trim (t := key) ?_
      rw [htrim, List.getLast?_append_of_ne_nil _ (List.cons_ne_nil _ _),
        List.getLast?_cons_of_ne_nil (List.cons_ne_nil c rest)]
      exact hd

/-- An identity is found by what it is written as. -/
theorem lookedUpAs_display (who : Identity) : LookedUpAs who.display who := by
  rw [LookedUpAs, Identity.trim_display]
  refine lowerIn_eq_self (fun c hc => ?_) [] []
  have hletter : ∀ {c : Char}, c.toNat < 128 → Ascii.toLower c = c → lower c = [c] ∧ c ≠ 'Σ' := by
    intro c hascii hsame
    refine ⟨by rw [CaseTables.lower_ascii c hascii, hsame], ?_⟩
    rintro rfl
    exact absurd hascii (by decide)
  obtain hprovider | hrest := List.mem_append.mp hc
  · have hlower := who.provider.asStr_lowercase c hprovider
    have hcode : 0x61 ≤ c.toNat ∧ c.toNat ≤ 0x7a := hlower
    exact hletter (by omega) (Ascii.toLower_of_asciiLower hlower)
  · obtain rfl | hsubject := List.mem_cons.mp hrest
    · exact hletter (by decide) (by decide)
    · rw [← who.lowered] at hsubject
      exact lower_of_mem_lowerIn hsubject

/-! ## The two readings agree -/

/-- The letters of `local` and the colon are a word, for what comes after them. -/
theorem word_of_letters {t : Text} (h : ∀ c ∈ t, c.toNat < 128 ∧ c.isAlpha = true) (hne : t ≠ []) :
    ignorableThenCased (':' :: t.reverse) = true := by
  have hcolon : caseIgnorable ':' = true := by
    rw [CaseTables.caseIgnorable_ascii ':' (by decide)]
    decide
  rw [ignorableThenCased, List.dropWhile_cons_of_pos hcolon]
  cases hrev : t.reverse with
  | nil => exact absurd (List.reverse_eq_nil_iff.mp hrev) hne
  | cons c rest =>
    obtain ⟨hascii, halpha⟩ := h c (List.mem_reverse.mp (by rw [hrev]; exact List.mem_cons_self))
    have hread : caseIgnorable c = false := by
      rw [CaseTables.caseIgnorable_ascii c hascii]
      refine Bool.eq_false_iff.mpr fun hmem => ?_
      have hnot := List.all_iff_forall_prop.mp
        (by decide : "'.:^`".toList.all fun c => decide (c.isAlpha = false)) c
        (List.contains_iff_mem.mp hmem)
      rw [halpha] at hnot
      cases hnot
    rw [List.dropWhile_cons_of_neg (by rw [hread]; exact Bool.false_ne_true)]
    exact (CaseTables.cased_ascii c hascii).trans halpha

omit [CaseTables] in
theorem Provider.eq_of_parse {t : Text} {p : Provider} (h : Provider.parse t = some p) :
    t = p.asStr := by
  simpa using List.find?_some h

/-- A key that says `local` with no whitespace around it is looked up by what its subject is
lowered to after that word. -/
theorem lookedUpAs_iff_parse_iff_of_local {key provider subject : Text}
    (hkey : splitOnce ':' key.trim = some (provider, subject))
    (hlocal : Provider.parse (toLowercase provider.trim) = some .local)
    (hprovider : provider.trim = provider) :
    (∀ who : Identity, who.provider = .local →
      (LookedUpAs key who ↔ Identity.parse key = some who)) ↔
    subject ≠ [] ∧ subject.trim = subject ∧ leadingSigma subject = false := by
  have hstr : lowerIn [] provider [] = Provider.asStr .local := by
    rw [hprovider] at hlocal
    exact Provider.eq_of_parse hlocal
  obtain ⟨hletters, hne, _, _⟩ := letters_of_lowerIn hstr
  have hwhole : lowerIn [] provider (':' :: subject) = Provider.asStr .local :=
    (lowerIn_of_isAlpha (fun c hc => (hletters c hc).1) [] (':' :: subject)).trans hstr
  have hnothing : ignorableThenCased [] = false := rfl
  have hafter := lowerIn_after_word (word_of_letters hletters hne) hnothing subject
  have hlooked : ∀ who : Identity, who.provider = .local →
      (LookedUpAs key who ↔ lowerIn (':' :: provider.reverse) subject [] = who.subject) :=
    fun who hwho => (lookedUpAs_iff hkey hwho).trans (and_iff_right hwhole)
  have hparse : ∀ who : Identity, who.provider = .local →
      (Identity.parse key = some who ↔ subject.trim ≠ [] ∧ Identity.new .local subject = who) :=
    fun who hwho => (parse_eq_some_iff hkey hwho).trans (and_iff_right hlocal)
  constructor
  · intro h
    have hsubject : subject ≠ [] := by
      rintro rfl
      -- a key with no subject is found for the identity with none
      have hnobody := (h ⟨.local, [], rfl, rfl⟩ rfl).mp ((hlooked _ rfl).mpr rfl)
      exact ((hparse _ rfl).mp hnobody).1 rfl
    have hnamed : Identity.parse key = some (Identity.new .local subject) :=
      (hparse _ rfl).mpr ⟨subject_trim_ne_nil hkey hsubject, rfl⟩
    have hfound := (hlooked _ rfl).mp ((h _ rfl).mpr hnamed)
    have htrim : subject.trim = subject := by
      by_contra hspaced
      obtain ⟨c, rest, rfl, hspace⟩ := exists_head_of_trim_ne hkey hspaced
      have hsigma : c ≠ 'Σ' := by
        rintro rfl
        exact absurd hspace (by decide)
      have hhead : c ∈ (Identity.new .local (c :: rest)).subject.head? := by
        rw [← hfound, lowerIn, lowerChar, if_neg hsigma, CaseTables.lower_whitespace c hspace]
        rfl
      rw [← (Identity.new .local (c :: rest)).trimmed] at hhead
      rw [head_trim hhead] at hspace
      cases hspace
    refine ⟨hsubject, htrim, hafter.mp (hfound.trans ?_)⟩
    change toLowercase subject.trim = toLowercase subject
    rw [htrim]
  · rintro ⟨hsubject, htrim, hsigma⟩ who hwho
    have hnew : (Identity.new .local subject).subject = lowerIn [] subject [] := by
      change toLowercase subject.trim = toLowercase subject
      rw [htrim]
    rw [hlooked who hwho, hparse who hwho, hafter.mpr hsigma, ← hnew, htrim]
    exact ⟨fun heq => ⟨hsubject, Identity.ext hwho.symm heq⟩, fun h => congrArg _ h.2⟩

/-- **Key by key**: a key is looked up as exactly the people it names if it is tidy, and not
otherwise. -/
theorem lookedUpAs_iff_parse_iff (key : Text) :
    (∀ who : Identity, who.provider = .local →
      (LookedUpAs key who ↔ Identity.parse key = some who)) ↔ Tidy key := by
  cases hkey : splitOnce ':' key.trim with
  | none =>
    refine iff_of_true (fun who _ => iff_of_false (not_lookedUpAs hkey who) ?_) ?_
    · simp [Identity.parse, hkey]
    · intro provider subject hsome
      rw [hkey] at hsome
      cases hsome
  | some pair =>
    obtain ⟨provider, subject⟩ := pair
    by_cases hlocal : Provider.parse (toLowercase provider.trim) = some .local
    · have htidy : Tidy key ↔ (provider.trim = provider ↔ subject ≠ []) ∧
          subject.trim = subject ∧ leadingSigma subject = false := by
        refine ⟨fun h => h provider subject hkey hlocal, fun h p t hpt _ => ?_⟩
        obtain ⟨rfl, rfl⟩ := Prod.mk.inj (Option.some.inj (hkey.symm.trans hpt))
        exact h
      rw [htidy]
      by_cases hprovider : provider.trim = provider
      · rw [lookedUpAs_iff_parse_iff_of_local hkey hlocal hprovider, iff_true_left hprovider]
      · have hnobody : ∀ who : Identity, who.provider = .local → ¬LookedUpAs key who :=
          fun who hwho h => hprovider (letters_of_lowerIn ((lookedUpAs_iff hkey hwho).mp h).1).2.2.1
        constructor
        · intro h
          have hsubject : subject = [] := by
            by_contra hne
            have hnamed : Identity.parse key = some (Identity.new .local subject) :=
              (parse_eq_some_iff hkey rfl).mpr ⟨hlocal, subject_trim_ne_nil hkey hne, rfl⟩
            exact hnobody _ rfl ((h _ rfl).mpr hnamed)
          subst hsubject
          exact ⟨iff_of_false hprovider (not_not.mpr rfl), rfl, rfl⟩
        · rintro ⟨hiff, _, _⟩ who hwho
          refine iff_of_false (hnobody who hwho) fun hnamed => hprovider (hiff.mpr ?_)
          rintro rfl
          exact ((parse_eq_some_iff hkey hwho).mp hnamed).2.1 rfl
    · refine iff_of_true (fun who hwho => iff_of_false (fun h => hlocal ?_) fun h => hlocal ?_) ?_
      · obtain ⟨_, _, htrim, hlower⟩ := letters_of_lowerIn ((lookedUpAs_iff hkey hwho).mp h).1
        rw [htrim, hlower, Provider.parse_asStr]
      · exact ((parse_eq_some_iff hkey hwho).mp h).1
      · intro p t hpt hp
        obtain ⟨rfl, rfl⟩ := Prod.mk.inj (Option.some.inj (hkey.symm.trans hpt))
        exact absurd hp hlocal

/-- **Password keys.** The password table finds every local identity exactly by the keys that name
it, with their value, and looks each key up as who it names, if and only if every key is tidy. -/
theorem keysNamePeople_iff (config : Config) :
    config.KeysNamePeople ↔ ∀ entry ∈ config.localPasswords, Tidy entry.1 := by
  have hkeys : (∀ entry ∈ config.localPasswords, ∀ who : Identity, who.provider = .local →
      (LookedUpAs entry.1 who ↔ Identity.parse entry.1 = some who)) ↔
      ∀ entry ∈ config.localPasswords, Tidy entry.1 :=
    forall₂_congr fun entry _ => lookedUpAs_iff_parse_iff entry.1
  refine ⟨fun h => hkeys.mp h.2, fun h => ?_⟩
  have hsame := hkeys.mpr h
  refine ⟨fun who hwho => ⟨?_, fun value hsome hall => ?_⟩, hsame⟩
  · rw [Config.localPassword, Option.isSome_map, List.find?_isSome]
    refine exists_congr fun entry => and_congr_right fun hentry => ?_
    rw [decide_eq_true_eq]
    exact hsame entry hentry who hwho
  · obtain ⟨entry, hentry, hparse⟩ := hsome
    have hfound : (config.localPasswords.find? fun entry =>
        toLowercase entry.1.trim = who.display).isSome = true :=
      List.find?_isSome.mpr ⟨entry, hentry,
        decide_eq_true ((hsame entry hentry who hwho).mpr hparse)⟩
    obtain ⟨first, hfirst⟩ := Option.isSome_iff_exists.mp hfound
    have hmem := List.mem_of_find?_eq_some hfirst
    have hlooked : toLowercase first.1.trim = who.display := by
      simpa using List.find?_some hfirst
    rw [Config.localPassword, hfirst, Option.map_some,
      hall first hmem ((hsame first hmem who hwho).mp hlooked)]

end

/-! ### A space beside the colon -/

open Text.Greek

def spacedKey : Text := "local : alice".toList

def spacedConfig : Config where
  users := [.new .local "alice".toList]
  loginMethods := [.local]
  localPasswords := [(spacedKey, "wonderland".toList)]
  mfaRequired := false
  googleClientId := none
  googleClientSecret := none
  rememberDevice := false
  rememberDeviceWindow := fromSecs 86400
  maxDevicesPerIdentity := 10
  publicBaseUrl := none
  sessionTtl := fromSecs 28800
  sessionPath := none

/-- The key names alice, who is not found by it. -/
theorem spaced_key_is_lost :
    ¬ ∀ (_ : CaseTables) (config : Config) (who : Identity), who.provider = .local →
      ((config.localPassword who).isSome = true ↔
        ∃ entry ∈ config.localPasswords, Identity.parse entry.1 = some who) := by
  intro h
  have hnamed : Identity.parse spacedKey = some (.new .local "alice".toList) := by decide
  have hlost : (spacedConfig.localPassword (.new .local "alice".toList)).isSome = false := by
    decide
  have hfound := (h tables spacedConfig (.new .local "alice".toList) rfl).mpr
    ⟨_, List.mem_singleton_self _, hnamed⟩
  rw [hlost] at hfound
  cases hfound

end Webshell
