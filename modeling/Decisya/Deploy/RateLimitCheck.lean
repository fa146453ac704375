import Decisya.Bff.RateLimitOptions
import Decisya.Text.Lowercase

/-!
# The rate-limit settings of a stack

The deploy check takes the environment entries of the BFF one by one, before the host has read
them. It knows no prefix of the host, and it lowers the names where the BFF upper-cases them.
-/

namespace Decisya.Deploy.RateLimitCheck

set_option autoImplicit false

open Decisya.Bff.Configuration (Str Runtime same child delimiter segment under normalize stripped
  Loads Reads hostPrefixes starts build value normalize_cons normalize_cases
  mem_normalize_iff)
open Decisya.Bff.RateLimiting
open Python (CaseTable LowersTo startsWith)

/-! ## The check -/

/-- `key.replace(":", "__")` -/
def replaceColon : Str → Str
  | [] => []
  | c :: rest => if c = ':' then '_' :: '_' :: replaceColon rest else c :: replaceColon rest

/-- `name.split("__")` -/
def split : Str → List Str
  | [] => [[]]
  | '_' :: '_' :: rest => [] :: split rest
  | c :: rest => (split rest).modifyHead (c :: ·)

def ratelimitClasses : List Str :=
  ["login".toList, "backchannel_logout".toList, "api".toList, "admin".toList]

def ratelimitRanges : List (Str × ℕ × ℕ) :=
  [("permitlimit".toList, 1, 100000), ("windowseconds".toList, 1, 3600)]

def settingsStart : Str := "bff__ratelimits__".toList

/-- `re.fullmatch(r"[0-9]{1,6}", value)` -/
def isShortNumber (value : Str) : Bool :=
  1 ≤ value.length && value.length ≤ 6 && value.all Char.isDigit

section Check
variable (table : CaseTable)

/-- The settings of the class that the parts name, with their ranges. -/
def allowed (parts : List Str) : List (Str × ℕ × ℕ) :=
  ratelimitRanges ++
    if parts.length = 4 ∧ table.lower (parts.getD 2 []) = "api".toList then
      [("anonymouspermitlimit".toList, 1, 100000)]
    else []

/-- The range of the setting that the parts name. -/
def rangeOf (parts : List Str) : Option (ℕ × ℕ) :=
  if parts.length ≠ 4 then none
  else if ratelimitClasses.contains (table.lower (parts.getD 2 [])) = false then none
  else (allowed table parts).lookup (table.lower (parts.getD 3 []))

def ratelimitEnvProblem (service key value : Str) : Option Str :=
  let name := replaceColon key
  if startsWith (table.lower name) settingsStart = false then none
  else if service ≠ "bff".toList then
    some ("service ".toList ++ service ++ ": ".toList ++ key ++ " is a BFF setting".toList)
  else
    match rangeOf table (split name) with
    | none =>
      some ("service bff: ".toList ++ key ++
        (" is not a rate-limit setting (Bff__RateLimits__<class>__PermitLimit or __WindowSeconds, " ++
          "and __AnonymousPermitLimit for api)").toList)
    | some (low, high) =>
      if isShortNumber value && low ≤ natural value && natural value ≤ high then none
      else
        some ("service bff: ".toList ++ key ++ " must be an integer from ".toList ++ decimal low ++
          " to ".toList ++ decimal high)

end Check

/-! ## Names and their separators -/

/-- No separator is in the text, and none comes about where one follows it. -/
def isTame : Str → Bool
  | [] => true
  | c :: rest =>
    c != ':' && (c != '_' || !(rest.head? == none || rest.head? == some '_')) && isTame rest

section Tame
variable {a b key tail : Str} {c : Char}

theorem delimiter_not_mem_of_isTame (h : isTame a = true) : delimiter ∉ a := by
  induction a with
  | nil => exact List.not_mem_nil
  | cons c a ih =>
    rw [isTame, Bool.and_eq_true, Bool.and_eq_true, bne_iff_ne] at h
    rw [List.mem_cons, not_or]
    exact ⟨fun heq => h.1.1 heq.symm, ih h.2⟩

theorem isTame_cons_iff : isTame (c :: a) = true ↔
    c ≠ ':' ∧ (c = '_' → ∃ d rest, a = d :: rest ∧ d ≠ '_') ∧ isTame a = true := by
  rw [isTame, Bool.and_eq_true, Bool.and_eq_true, bne_iff_ne, and_assoc]
  apply and_congr_right
  intro _
  apply and_congr_left
  intro _
  cases a with
  | nil => simp
  | cons d rest => simp [imp_iff_not_or]

theorem split_cons (h : c ≠ '_' ∨ a.head? ≠ some '_') :
    split (c :: a) = (split a).modifyHead (c :: ·) := by
  rw [split]
  intro rest hc ha
  rcases h with h | h
  · exact h hc
  · exact h (by rw [ha]; rfl)

/-- A tame text is read character by character, whatever follows it. -/
theorem head_of_isTame (h : isTame (c :: a) = true) (b : Str) :
    c ≠ '_' ∨ (a ++ b).head? ≠ some '_' := by
  by_cases hc : c = '_'
  · obtain ⟨d, rest, rfl, hd⟩ := (isTame_cons_iff.mp h).2.1 hc
    exact Or.inr fun hhead => hd (Option.some.inj hhead)
  · exact Or.inl hc

theorem split_ne_nil (a : Str) : split a ≠ [] := by
  induction a using split.induct with
  | case1 => exact List.cons_ne_nil _ _
  | case2 rest ih => exact List.cons_ne_nil _ _
  | case3 c rest hne ih =>
    rw [split]
    · intro hnil
      exact ih (List.modifyHead_eq_nil_iff.mp hnil)
    · exact hne

theorem intercalate_split (a : Str) : ['_', '_'].intercalate (split a) = a := by
  induction a using split.induct with
  | case1 => rfl
  | case2 rest ih =>
    rw [split, List.intercalate_cons_of_ne_nil (split_ne_nil rest), ih]
    rfl
  | case3 c rest hne ih =>
    rw [split]
    · obtain ⟨first, others, hsplit⟩ := List.exists_cons_of_ne_nil (split_ne_nil rest)
      rw [hsplit] at ih ⊢
      rw [List.modifyHead_cons, ← ih]
      cases others with
      | nil => rfl
      | cons second others =>
        rw [List.intercalate_cons_cons, List.intercalate_cons_cons]
        rfl
    · exact hne

theorem split_append (h : isTame a = true) : split (a ++ '_' :: '_' :: tail) = a :: split tail := by
  induction a with
  | nil => rfl
  | cons c a ih =>
    rw [List.cons_append, split_cons (head_of_isTame h _), ih (isTame_cons_iff.mp h).2.2]
    rfl

theorem normalize_append (h : isTame a = true) :
    normalize (a ++ '_' :: '_' :: tail) = child a (normalize tail) := by
  induction a with
  | nil => rfl
  | cons c a ih =>
    rw [List.cons_append, normalize_cons (head_of_isTame h _), ih (isTame_cons_iff.mp h).2.2]
    rfl

theorem normalize_append_colon (h : isTame a = true) :
    normalize (a ++ ':' :: tail) = child a (normalize tail) := by
  induction a with
  | nil => exact normalize_cons (Or.inl (by decide))
  | cons c a ih =>
    rw [List.cons_append, normalize_cons (head_of_isTame h _),
      ih (isTame_cons_iff.mp h).2.2]
    rfl

theorem normalize_of_isTame (h : isTame a = true) : normalize a = a := by
  induction a with
  | nil => rfl
  | cons c a ih =>
    have hhead := head_of_isTame h []
    rw [List.append_nil] at hhead
    rw [normalize_cons hhead, ih (isTame_cons_iff.mp h).2.2]

theorem replaceColon_cons (c : Char) (rest : Str) : replaceColon (c :: rest) =
    if c = ':' then '_' :: '_' :: replaceColon rest else c :: replaceColon rest := rfl

/-- Where the replaced name has a separator, the name has one of the two. -/
theorem of_replaceColon_append (h : isTame a = true) (htail : tail.head? ≠ some '_')
    (hkey : replaceColon key = a ++ '_' :: '_' :: tail) :
    ∃ rest, replaceColon rest = tail ∧ (key = a ++ ':' :: rest ∨ key = a ++ '_' :: '_' :: rest) := by
  induction a generalizing key with
  | nil =>
    cases key with
    | nil => cases hkey
    | cons c key =>
      rw [replaceColon_cons] at hkey
      split at hkey
      · rename_i hc
        obtain rfl := (List.cons.inj (List.cons.inj hkey).2).2
        exact ⟨key, rfl, Or.inl (by rw [hc]; rfl)⟩
      · obtain ⟨rfl, hrest⟩ := List.cons.inj hkey
        cases key with
        | nil => cases hrest
        | cons d key =>
          rw [replaceColon_cons] at hrest
          split at hrest
          · obtain ⟨-, htail'⟩ := List.cons.inj hrest
            exact absurd (by rw [← htail']; rfl) htail
          · obtain ⟨rfl, rfl⟩ := List.cons.inj hrest
            exact ⟨key, rfl, Or.inr rfl⟩
  | cons c a ih =>
    cases key with
    | nil => cases hkey
    | cons d key =>
      rw [replaceColon_cons] at hkey
      split at hkey
      · obtain ⟨rfl, hrest⟩ := List.cons.inj hkey
        obtain ⟨e, rest, rfl, he⟩ := (isTame_cons_iff.mp h).2.1 rfl
        exact absurd (List.cons.inj hrest).1.symm he
      · obtain ⟨rfl, hrest⟩ := List.cons.inj hkey
        obtain ⟨rest, hreplace, hcases⟩ := ih (isTame_cons_iff.mp h).2.2 hrest
        refine ⟨rest, hreplace, ?_⟩
        rcases hcases with rfl | rfl
        · exact Or.inl rfl
        · exact Or.inr rfl

theorem of_replaceColon_eq (h : isTame a = true) (hkey : replaceColon key = a) : key = a := by
  induction a generalizing key with
  | nil =>
    cases key with
    | nil => rfl
    | cons c key =>
      rw [replaceColon_cons] at hkey
      split at hkey
      · cases hkey
      · cases hkey
  | cons c a ih =>
    cases key with
    | nil => cases hkey
    | cons d key =>
      rw [replaceColon_cons] at hkey
      split at hkey
      · obtain ⟨rfl, hrest⟩ := List.cons.inj hkey
        obtain ⟨e, rest, rfl, he⟩ := (isTame_cons_iff.mp h).2.1 rfl
        exact absurd (List.cons.inj hrest).1.symm he
      · obtain ⟨rfl, hrest⟩ := List.cons.inj hkey
        rw [ih (isTame_cons_iff.mp h).2.2 hrest]

theorem normalize_of_replaceColon_append (h : isTame a = true) (htail : tail.head? ≠ some '_')
    (hkey : replaceColon key = a ++ '_' :: '_' :: tail) :
    ∃ rest, replaceColon rest = tail ∧ normalize key = child a (normalize rest) := by
  obtain ⟨rest, hrest, rfl | rfl⟩ := of_replaceColon_append h htail hkey
  · exact ⟨rest, hrest, normalize_append_colon h⟩
  · exact ⟨rest, hrest, normalize_append h⟩

theorem replaceColon_delimiter (rest : Str) :
    replaceColon (delimiter :: rest) = '_' :: '_' :: replaceColon rest := rfl

/-- Where the normalized name has the delimiter, the replaced one has the separator. -/
theorem of_normalize_append (ha : delimiter ∉ a) (hkey : normalize key = child a tail) :
    ∃ rest, normalize rest = tail ∧ replaceColon key = a ++ '_' :: '_' :: replaceColon rest := by
  induction a generalizing key with
  | nil =>
    rcases normalize_cases key with rfl | ⟨rest, rfl, hrest⟩ | ⟨c, rest, rfl, hrest⟩
    · cases hkey
    · rw [hrest] at hkey
      exact ⟨rest, (List.cons.inj hkey).2, rfl⟩
    · rw [hrest] at hkey
      obtain ⟨rfl, htail⟩ := List.cons.inj hkey
      exact ⟨rest, htail, replaceColon_delimiter rest⟩
  | cons c a ih =>
    have hc : c ≠ delimiter := fun h => ha (h ▸ List.mem_cons_self)
    rcases normalize_cases key with rfl | ⟨rest, rfl, hrest⟩ | ⟨d, rest, rfl, hrest⟩
    · cases hkey
    · rw [hrest] at hkey
      exact absurd (List.cons.inj hkey).1.symm hc
    · rw [hrest] at hkey
      obtain ⟨rfl, htail⟩ := List.cons.inj hkey
      obtain ⟨rest', hrest', hreplace⟩ := ih (fun h => ha (List.mem_cons_of_mem _ h)) htail
      refine ⟨rest', hrest', ?_⟩
      have hchar : replaceColon (d :: rest) = d :: replaceColon rest := if_neg hc
      rw [hchar, hreplace]
      rfl

end Tame

/-! ## Lower case here and upper case there -/

/-- U+212A, whose lower case is an ASCII letter and which no upper case turns into one. -/
def kelvin : Char := Char.ofNat 0x212a

section Case
variable {runtime : Runtime} {a b word : Str} {c d : Char}

theorem isAscii_or_kelvin (h : LowersTo c d) : c.toNat < 128 ∨ c = kelvin := by
  rcases h with ⟨hascii, -⟩ | ⟨hkelvin, -⟩
  · exact Or.inl hascii
  · right
    rw [← Char.ofNat_toNat c, hkelvin]
    rfl

theorem upper_of_lowersTo (hc : c.toNat < 128) (hd : d.toNat < 128) (h : LowersTo c d.toLower) :
    runtime.upper c = runtime.upper d := by
  rcases h with ⟨-, hlower⟩ | ⟨hkelvin, -⟩
  · rw [runtime.upper_ascii c hc, runtime.upper_ascii d hd, ← Char.toUpper_toLower_eq_toUpper c,
      hlower, Char.toUpper_toLower_eq_toUpper]
  · omega

theorem toNat_toUpper_lt (hd : d.toNat < 128) : d.toUpper.toNat < 128 := by
  by_cases hlower : d.isLower = true
  · rw [Char.toUpper_eq_of_isLower hlower, Char.toNat_ofNat]
    split
    · omega
    · omega
  · rwa [Char.toUpper_eq_of_not_isLower hlower]

theorem lowersTo_of_upper (hd : d.toNat < 128) (h : runtime.upper c = runtime.upper d) :
    c.toNat < 128 ∧ LowersTo c d.toLower := by
  have hc : c.toNat < 128 := by
    by_contra hc
    have hother := runtime.upper_other c (by omega)
    rw [h, runtime.upper_ascii d hd] at hother
    have hsmall := toNat_toUpper_lt hd
    omega
  rw [runtime.upper_ascii c hc, runtime.upper_ascii d hd] at h
  refine ⟨hc, Or.inl ⟨hc, ?_⟩⟩
  rw [← Char.toLower_toUpper_eq_toLower c, h, Char.toLower_toUpper_eq_toLower]

theorem same_of_lowersTo (hword : ∀ d ∈ word, d.toNat < 128) (ha : ∀ c ∈ a, c.toNat < 128)
    (h : List.Forall₂ LowersTo a (word.map Char.toLower)) : same runtime a word = true := by
  induction word generalizing a with
  | nil =>
    cases h
    exact Decisya.Bff.Configuration.same_refl []
  | cons d word ih =>
    cases h with
    | cons hc hrest =>
      apply Decisya.Bff.Configuration.same_cons_iff.mpr
      constructor
      · exact upper_of_lowersTo (ha _ List.mem_cons_self) (hword d List.mem_cons_self) hc
      · exact ih (fun e he => hword e (List.mem_cons_of_mem _ he))
          (fun e he => ha e (List.mem_cons_of_mem _ he)) hrest

theorem lowersTo_of_same (hword : ∀ d ∈ word, d.toNat < 128) (h : same runtime a word = true) :
    List.Forall₂ LowersTo a (word.map Char.toLower) ∧ ∀ c ∈ a, c.toNat < 128 := by
  induction word generalizing a with
  | nil =>
    obtain rfl := Decisya.Bff.Configuration.same_nil_iff.mp h
    exact ⟨List.Forall₂.nil, fun c hc => absurd hc List.not_mem_nil⟩
  | cons d word ih =>
    cases a with
    | nil =>
      have hnil := Decisya.Bff.Configuration.same_nil_iff.mp (Decisya.Bff.Configuration.same_symm h)
      exact absurd hnil (List.cons_ne_nil _ _)
    | cons c a =>
      obtain ⟨hupper, hrest⟩ := Decisya.Bff.Configuration.same_cons_iff.mp h
      obtain ⟨hc, hlower⟩ := lowersTo_of_upper (hword d List.mem_cons_self) hupper
      obtain ⟨hall, hascii⟩ := ih (fun e he => hword e (List.mem_cons_of_mem _ he)) hrest
      exact ⟨List.Forall₂.cons hlower hall, List.forall_mem_cons.mpr ⟨hc, hascii⟩⟩

/-- Without the one other character that lowers to a letter, only ASCII lowers to a word. -/
theorem ascii_of_lowersTo (h : List.Forall₂ LowersTo a b) (hkelvin : kelvin ∉ a) :
    ∀ c ∈ a, c.toNat < 128 := by
  induction h with
  | nil => exact fun c hc => absurd hc List.not_mem_nil
  | cons hc _ ih =>
    rw [List.mem_cons, not_or] at hkelvin
    refine List.forall_mem_cons.mpr ⟨?_, ih hkelvin.2⟩
    exact (isAscii_or_kelvin hc).resolve_right fun heq => hkelvin.1 heq.symm

theorem kelvin_not_mem (h : List.Forall₂ LowersTo a b) (hb : 'k' ∉ b) : kelvin ∉ a := by
  induction h with
  | nil => exact List.not_mem_nil
  | cons hc _ ih =>
    rw [List.mem_cons, not_or] at hb ⊢
    refine ⟨?_, ih hb.2⟩
    rintro rfl
    rcases hc with ⟨hascii, -⟩ | ⟨-, hk⟩
    · exact absurd hascii (by decide)
    · exact hb.1 hk.symm

theorem lowersTo_underscore_iff (h : LowersTo c d) : c = '_' ↔ d = '_' := by
  constructor
  · rintro rfl
    rcases h with ⟨-, hlower⟩ | ⟨hkelvin, -⟩
    · exact hlower.symm
    · exact absurd hkelvin (by decide)
  · rintro rfl
    exact Python.eq_of_lowersTo h (by decide)

theorem isTame_of_lowersTo (h : List.Forall₂ LowersTo a b) (hb : isTame b = true) :
    isTame a = true := by
  induction h with
  | nil => rfl
  | cons hc hrest ih =>
    obtain ⟨hcolon, hnext, htame⟩ := isTame_cons_iff.mp hb
    refine isTame_cons_iff.mpr ⟨?_, ?_, ih htame⟩
    · rintro rfl
      rcases hc with ⟨-, hlower⟩ | ⟨hkelvin, -⟩
      · exact hcolon hlower.symm
      · exact absurd hkelvin (by decide)
    · intro hunderscore
      obtain ⟨e, rest, rfl, he⟩ := hnext ((lowersTo_underscore_iff hc).mp hunderscore)
      cases hrest with
      | cons hd _ => exact ⟨_, _, rfl, fun heq => he ((lowersTo_underscore_iff hd).mp heq)⟩

end Case

/-! ## The two grammars -/

section Names
variable {runtime : Runtime} {table : CaseTable} {a b key value p s : Str} {limit : RouteClass}
  {setting : Setting} {low high : ℕ}

theorem same_ascii (ha : ∀ c ∈ a, c.toNat < 128) (hb : ∀ c ∈ b, c.toNat < 128) :
    same runtime a b = (a.map Char.toUpper == b.map Char.toUpper) := by
  have hmap : ∀ s : Str, (∀ c ∈ s, c.toNat < 128) → s.map runtime.upper = s.map Char.toUpper :=
    fun s hs => List.map_congr_left fun c hc => runtime.upper_ascii c (hs c hc)
  unfold same
  rw [hmap a ha, hmap b hb]

theorem of_allAscii (h : (a.all fun c => decide (c.toNat < 128)) = true) : ∀ c ∈ a, c.toNat < 128 :=
  fun c hc => of_decide_eq_true (List.all_eq_true.mp h c hc)

theorem className_ascii (limit : RouteClass) : ∀ c ∈ limit.name, c.toNat < 128 := by
  apply of_allAscii
  cases limit <;> decide

theorem settingName_ascii (setting : Setting) : ∀ c ∈ setting.name, c.toNat < 128 := by
  apply of_allAscii
  cases setting <;> decide

theorem classOf_name (limit : RouteClass) :
    BffRateLimitOptions.classOf runtime limit.name = some limit := by
  unfold BffRateLimitOptions.classOf
  simp only [same_ascii (className_ascii limit) (className_ascii _)]
  cases limit <;> decide

theorem settingOf_name (h : Setting.Of limit setting) :
    BffRateLimitOptions.settingOf runtime limit setting.name = some setting := by
  unfold BffRateLimitOptions.settingOf
  simp only [same_ascii (settingName_ascii setting) (settingName_ascii _)]
  cases setting with
  | permitLimit => cases limit <;> decide
  | windowSeconds => cases limit <;> decide
  | anonymousPermitLimit =>
    rw [h rfl]
    decide

theorem loweredName_ascii (setting : Setting) :
    ∀ c ∈ setting.name.map Char.toLower, c.toNat < 128 := by
  apply of_allAscii
  cases setting <;> decide

theorem length_of_rangeOf {parts : List Str} (h : rangeOf table parts = some (low, high)) :
    parts.length = 4 := by
  by_contra hne
  unfold rangeOf at h
  rw [if_pos hne] at h
  cases h

/-- What the check looks up is a setting of the class, with the range the validator has. -/
theorem of_rangeOf (h : rangeOf table [a, b, p, s] = some (low, high)) :
    ∃ limit setting, table.lower p = RouteClass.name limit ∧
      table.lower s = (Setting.name setting).map Char.toLower ∧ Setting.Of limit setting ∧
      low = 1 ∧ high = setting.top := by
  unfold rangeOf at h
  split at h
  · cases h
  split at h
  · cases h
  rename_i hclass
  rw [Bool.not_eq_false, List.contains_iff_mem] at hclass
  obtain ⟨limit, hlimit⟩ : ∃ limit, table.lower p = RouteClass.name limit := by
    have hmem : table.lower p ∈ ratelimitClasses := hclass
    simp only [ratelimitClasses, List.mem_cons, List.not_mem_nil, or_false] at hmem
    rcases hmem with heq | heq | heq | heq
    · exact ⟨.login, heq⟩
    · exact ⟨.backchannelLogout, heq⟩
    · exact ⟨.api, heq⟩
    · exact ⟨.admin, heq⟩
  obtain ⟨before, after, hlist, -⟩ := List.lookup_eq_some_iff.mp h
  have hmem : (table.lower s, low, high) ∈ allowed table [a, b, p, s] := by
    rw [hlist]
    exact List.mem_append_right _ List.mem_cons_self
  rcases List.mem_append.mp hmem with hranges | hanonymous
  · rcases List.mem_pair.mp hranges with heq | heq
    · obtain ⟨hs, hrange⟩ := Prod.mk.inj heq
      obtain ⟨rfl, rfl⟩ := Prod.mk.inj hrange
      exact ⟨limit, .permitLimit, hlimit, hs, fun hof => (by cases hof), rfl, rfl⟩
    · obtain ⟨hs, hrange⟩ := Prod.mk.inj heq
      obtain ⟨rfl, rfl⟩ := Prod.mk.inj hrange
      exact ⟨limit, .windowSeconds, hlimit, hs, fun hof => (by cases hof), rfl, rfl⟩
  · split at hanonymous
    · rename_i hapi
      obtain ⟨hs, hrange⟩ := Prod.mk.inj (List.mem_singleton.mp hanonymous)
      obtain ⟨rfl, rfl⟩ := Prod.mk.inj hrange
      exact ⟨.api, .anonymousPermitLimit, hapi.2, hs, fun _ => rfl, rfl, rfl⟩
    · exact absurd hanonymous List.not_mem_nil

end Names

/-! ## An accepted name -/

section Accepted
variable {runtime : Runtime} {table : CaseTable} {a b q rest key value word : Str}

/-- What lowers to words with separators is words with separators. -/
theorem exists_word (h : List.Forall₂ LowersTo q (word ++ '_' :: '_' :: rest)) :
    ∃ a tail, q = a ++ '_' :: '_' :: tail ∧ List.Forall₂ LowersTo a word ∧
      List.Forall₂ LowersTo tail rest := by
  have hword := List.forall₂_take_append q _ _ h
  have hrest := List.forall₂_drop_append q _ _ h
  have hq := List.take_append_drop word.length q
  cases hdrop : q.drop word.length with
  | nil =>
    rw [hdrop] at hrest
    cases hrest
  | cons c more =>
    rw [hdrop] at hrest hq
    cases hrest with
    | cons hc hmore =>
      cases hmore with
      | cons hd htail =>
        rw [(lowersTo_underscore_iff hc).mpr rfl, (lowersTo_underscore_iff hd).mpr rfl] at hq
        exact ⟨_, _, hq.symm, hword, htail⟩

theorem head_of_lowersTo (h : List.Forall₂ LowersTo a word) (hne : word ≠ [])
    (hword : word.head? ≠ some '_') (b : Str) : (a ++ b).head? ≠ some '_' := by
  cases h with
  | nil => exact absurd rfl hne
  | cons hc _ =>
    intro hhead
    rw [List.cons_append, List.head?_cons] at hhead
    rw [(lowersTo_underscore_iff hc).mp (Option.some.inj hhead)] at hword
    exact hword rfl

theorem tryParse_of_isShortNumber (h : isShortNumber value = true) (hle : natural value ≤ 100000) :
    tryParse value = some (natural value : ℤ) := by
  unfold isShortNumber at h
  rw [Bool.and_eq_true, Bool.and_eq_true, decide_eq_true_iff] at h
  obtain ⟨⟨hlength, -⟩, hdigits⟩ := h
  have htake : value.takeWhile Char.isDigit = value :=
    List.takeWhile_eq_self_iff.mpr (List.all_eq_true.mp hdigits)
  have hdrop : value.dropWhile Char.isDigit = [] :=
    List.dropWhile_eq_nil_iff.mpr (List.all_eq_true.mp hdigits)
  have hsign : ∀ sign : Char, sign.isDigit = false → (value.head? == some sign) = false := by
    intro sign hsign
    cases value with
    | nil => rfl
    | cons c value =>
      rw [List.head?_cons, beq_eq_false_iff_ne]
      intro heq
      rw [Option.some.inj heq, List.all_cons, hsign] at hdigits
      cases hdigits
  have hempty : value.isEmpty = false := by
    rw [List.isEmpty_eq_false_iff, ← List.length_pos_iff]
    exact hlength
  unfold tryParse
  rw [hsign '-' (by decide), hsign '+' (by decide)]
  simp only [Bool.or_false, Bool.false_eq_true, if_false, htake, hdrop, hempty, List.all_nil,
    Bool.not_true]
  rw [if_pos]
  omega

/-- The name of an accepted setting is the section, a class and one of its settings, each in
some case. -/
structure Names (key : Str) (limit : RouteClass) (setting : Setting) (b r p s : Str) : Prop where
  path : normalize key = child b (child r (child p s))
  first : List.Forall₂ LowersTo b "bff".toList
  second : List.Forall₂ LowersTo r "ratelimits".toList
  className : List.Forall₂ LowersTo p limit.name
  settingName : List.Forall₂ LowersTo s (setting.name.map Char.toLower)
  of : Setting.Of limit setting

theorem range_of_accepted (h : ratelimitEnvProblem table "bff".toList key value = none)
    (hstart : startsWith (table.lower (replaceColon key)) settingsStart = true) :
    ∃ low high, rangeOf table (split (replaceColon key)) = some (low, high) ∧
      isShortNumber value = true ∧ low ≤ natural value ∧ natural value ≤ high := by
  unfold ratelimitEnvProblem at h
  simp only [hstart, Bool.true_eq_false, if_false, ne_eq, not_true_eq_false] at h
  split at h
  · cases h
  · rename_i low high hrange
    split at h
    · rename_i hvalue
      rw [Bool.and_eq_true, Bool.and_eq_true, decide_eq_true_iff, decide_eq_true_iff] at hvalue
      exact ⟨low, high, hrange, hvalue.1.1, hvalue.1.2, hvalue.2⟩
    · cases h

theorem exists_names (h : ratelimitEnvProblem table "bff".toList key value = none)
    (hstart : startsWith (table.lower (replaceColon key)) settingsStart = true) :
    ∃ limit setting b r p s, Names key limit setting b r p s ∧
      tryParse value = some (natural value : ℤ) ∧ setting.InRange (natural value) := by
  obtain ⟨low, high, hrange, hvalue, hnumber⟩ := range_of_accepted h hstart
  -- The name starts with the section, in some case.
  have hprefix : "bff".toList ++ '_' :: '_' :: ("ratelimits".toList ++ '_' :: '_' :: []) <+:
      table.lower (replaceColon key) := List.isPrefixOf_iff_prefix.mp hstart
  obtain ⟨q, rest, hname, hq⟩ := Python.exists_of_prefix_lower (of_allAscii (by decide))
    (by decide) hprefix
  obtain ⟨b, tail, rfl, hb, htail⟩ := exists_word hq
  obtain ⟨r, tail, rfl, hr, hnil⟩ := exists_word htail
  obtain rfl := List.forall₂_nil_right_iff.mp hnil
  have hshape : replaceColon key = b ++ '_' :: '_' :: (r ++ '_' :: '_' :: rest) := by
    rw [hname]
    simp
  have hbTame := isTame_of_lowersTo hb (by decide)
  have hrTame := isTame_of_lowersTo hr (by decide)
  rw [hshape, split_append hbTame, split_append hrTame] at hrange
  -- What is left are two parts.
  obtain ⟨p, s, hparts⟩ : ∃ p s, split rest = [p, s] := by
    apply List.length_eq_two.mp
    have hlength := length_of_rangeOf hrange
    simpa using hlength
  rw [hparts] at hrange
  obtain ⟨limit, setting, hp, hs, hof, rfl, rfl⟩ := of_rangeOf hrange
  have hp' := Python.lowersTo_of_lower_eq (className_ascii limit) hp
  have hs' := Python.lowersTo_of_lower_eq (loweredName_ascii setting) hs
  have hpTame := isTame_of_lowersTo hp' (by cases limit <;> decide)
  have hsTame := isTame_of_lowersTo hs' (by cases setting <;> decide)
  have hrest : rest = p ++ '_' :: '_' :: s := by
    rw [← intercalate_split rest, hparts]
    simp [List.intercalate]
  -- The separators of the name are read one after another.
  have hsHead : s.head? ≠ some '_' := by
    have hhead := head_of_lowersTo hs' (by cases setting <;> decide) (by cases setting <;> decide) []
    rwa [List.append_nil] at hhead
  have hpHead := head_of_lowersTo hp' (by cases limit <;> decide) (by cases limit <;> decide)
  have hrHead := head_of_lowersTo hr (by decide) (by decide)
  obtain ⟨key1, hkey1, hpath⟩ := normalize_of_replaceColon_append hbTame (hrHead _) hshape
  rw [hrest] at hkey1
  obtain ⟨key2, hkey2, hpath1⟩ := normalize_of_replaceColon_append hrTame (hpHead _) hkey1
  obtain ⟨key3, hkey3, hpath2⟩ := normalize_of_replaceColon_append hpTame hsHead hkey2
  obtain rfl := of_replaceColon_eq hsTame hkey3
  rw [hpath1, hpath2, normalize_of_isTame hsTame] at hpath
  refine ⟨limit, setting, b, r, p, key3, ⟨hpath, hb, hr, hp', hs', hof⟩, ?_, ?_⟩
  · apply tryParse_of_isShortNumber hvalue
    have htop : setting.top ≤ 100000 := by cases setting <;> decide
    omega
  · unfold Setting.InRange
    omega

end Accepted

/-! ## The check against the BFF -/

theorem sectionName_eq : sectionName = child "Bff".toList "RateLimits".toList := rfl

section Names
variable {runtime : Runtime} {table : CaseTable} {key key' b r p s b' r' p' s' rest : Str}
  {limit limit' : RouteClass} {setting setting' : Setting}

namespace Names

theorem isTame_className (h : Names key limit setting b r p s) : isTame p = true :=
  isTame_of_lowersTo h.className (by cases limit <;> decide)

theorem segment_eq (h : Names key limit setting b r p s) : segment (child p s) = p :=
  Decisya.Bff.Configuration.segment_append (delimiter_not_mem_of_isTame h.isTame_className)

theorem under_eq (h : Names key limit setting b r p s) :
    under runtime sectionName (normalize key) = some (child p s) := by
  have hb : same runtime b "Bff".toList = true :=
    same_of_lowersTo (of_allAscii (by decide))
      (ascii_of_lowersTo h.first (kelvin_not_mem h.first (by decide))) h.first
  have hr : same runtime r "RateLimits".toList = true :=
    same_of_lowersTo (of_allAscii (by decide))
      (ascii_of_lowersTo h.second (kelvin_not_mem h.second (by decide))) h.second
  rw [h.path, sectionName_eq]
  apply Decisya.Bff.Configuration.under_child_iff.mpr
  refine ⟨child r (child p s), ?_, ?_⟩
  · exact Decisya.Bff.Configuration.under_eq_some_iff.mpr ⟨b, rfl, hb⟩
  · exact Decisya.Bff.Configuration.under_eq_some_iff.mpr ⟨r, rfl, hr⟩

theorem same_path (h : Names key limit setting b r p s) :
    same runtime (normalize key) (child (child sectionName p) s) = true := by
  obtain ⟨q, hkey, hq⟩ := Decisya.Bff.Configuration.under_eq_some_iff.mp
    (@under_eq runtime _ _ _ _ _ _ _ h)
  have hchild : child (child sectionName p) s = child sectionName (child p s) := by
    unfold child
    rw [List.append_assoc]
    rfl
  rw [hkey, hchild]
  exact Decisya.Bff.Configuration.same_child hq (Decisya.Bff.Configuration.same_refl _)

theorem classOf_eq (h : Names key limit setting b r p s) (hkelvin : kelvin ∉ p) :
    BffRateLimitOptions.classOf runtime p = some limit := by
  have hlower : limit.name.map Char.toLower = limit.name := by cases limit <;> decide
  have hsame : same runtime p limit.name = true := by
    apply same_of_lowersTo (className_ascii limit) (ascii_of_lowersTo h.className hkelvin)
    rw [hlower]
    exact h.className
  rw [BffRateLimitOptions.classOf_same hsame, classOf_name]

theorem settingOf_eq (h : Names key limit setting b r p s) :
    BffRateLimitOptions.settingOf runtime limit s = some setting := by
  have hkelvin := kelvin_not_mem h.settingName (by cases setting <;> decide)
  have hsame : same runtime s setting.name = true :=
    same_of_lowersTo (settingName_ascii setting) (ascii_of_lowersTo h.settingName hkelvin)
      h.settingName
  rw [BffRateLimitOptions.settingOf_same hsame, settingOf_name h.of]

end Names

theorem kelvin_not_mem_of_classOf (h : BffRateLimitOptions.classOf runtime p = some limit) :
    kelvin ∉ p := by
  intro hmem
  obtain ⟨-, hascii⟩ := lowersTo_of_same (className_ascii limit)
    (BffRateLimitOptions.same_of_classOf h)
  exact absurd (hascii kelvin hmem) (by decide)

theorem Names.kelvin_mem_iff (h : Names key limit setting b r p s) :
    kelvin ∈ key ↔ kelvin ∈ p := by
  have hb := kelvin_not_mem h.first (by decide)
  have hr := kelvin_not_mem h.second (by decide)
  have hs := kelvin_not_mem h.settingName (by cases setting <;> decide)
  have hdelimiter : kelvin ≠ delimiter := by decide
  rw [← mem_normalize_iff (by decide) hdelimiter, h.path]
  unfold child
  simp only [List.mem_append, List.mem_cons]
  tauto

/-- A key that the BFF reads below the section is a rate-limit key to the check. -/
theorem startsWith_of_under (h : under runtime sectionName (normalize key) = some rest) :
    startsWith (table.lower (replaceColon key)) settingsStart = true := by
  rw [sectionName_eq] at h
  obtain ⟨middle, hmiddle, hrest⟩ := Decisya.Bff.Configuration.under_child_iff.mp h
  obtain ⟨b, hkey, hb⟩ := Decisya.Bff.Configuration.under_eq_some_iff.mp hmiddle
  obtain ⟨r, rfl, hr⟩ := Decisya.Bff.Configuration.under_eq_some_iff.mp hrest
  obtain ⟨hb', -⟩ := lowersTo_of_same (of_allAscii (by decide)) hb
  obtain ⟨hr', -⟩ := lowersTo_of_same (of_allAscii (by decide)) hr
  have hbTame := isTame_of_lowersTo hb' (by decide)
  have hrTame := isTame_of_lowersTo hr' (by decide)
  obtain ⟨key1, hkey1, hreplace⟩ := of_normalize_append (delimiter_not_mem_of_isTame hbTame) hkey
  obtain ⟨key2, -, hreplace'⟩ := of_normalize_append (delimiter_not_mem_of_isTame hrTame) hkey1
  have hword : List.Forall₂ LowersTo (b ++ ['_', '_'] ++ (r ++ ['_', '_'])) settingsStart := by
    have hunderscores : List.Forall₂ LowersTo ['_', '_'] ['_', '_'] :=
      Python.forall_lowersTo_self (by decide)
    exact List.rel_append (List.rel_append hb' hunderscores) (List.rel_append hr' hunderscores)
  apply List.isPrefixOf_iff_prefix.mpr
  rw [hreplace, hreplace']
  have hprefix := @Python.lower_append table (replaceColon key2) _ _ hword
  simpa using hprefix

end Names

section Stack
variable {runtime : Runtime} {table : CaseTable} {environment : List (Str × Str)}
  {key value rest full name : Str}

/-- All entries of the service pass, one by one. -/
def Accepted (table : CaseTable) (environment : List (Str × Str)) : Prop :=
  ∀ entry ∈ environment, ratelimitEnvProblem table "bff".toList entry.1 entry.2 = none

/-- No name of a rate-limit setting is spelled with the Kelvin sign. -/
def NoKelvin (table : CaseTable) (environment : List (Str × Str)) : Prop :=
  ∀ entry ∈ environment,
    startsWith (table.lower (replaceColon entry.1)) settingsStart = true → kelvin ∉ entry.1

theorem loads_nil_iff :
    Loads runtime environment [] key value ↔ ∃ name, (name, value) ∈ environment ∧
      normalize name = key := by
  have hstripped : ∀ name, stripped runtime [] name = some name := by
    intro name
    unfold stripped
    rw [List.length_nil, List.take_zero, List.drop_zero]
    exact if_pos (Decisya.Bff.Configuration.same_refl [])
  unfold Loads
  simp only [hstripped, Option.some.injEq]

theorem reads_of_loads_nil (h : Loads runtime environment [] key value) :
    Reads runtime environment key :=
  ⟨[], List.mem_append_right _ List.mem_cons_self, value, h⟩

/-- Two accepted names of one key name the same class and the same setting. -/
theorem Names.unique {key' b r p s b' r' p' s' : Str} {limit limit' : RouteClass}
    {setting setting' : Setting} (h : Names key limit setting b r p s)
    (h' : Names key' limit' setting' b' r' p' s') (hkelvin : kelvin ∉ p) (hkelvin' : kelvin ∉ p')
    (hsame : same runtime (normalize key) (normalize key') = true) :
    limit = limit' ∧ setting = setting' := by
  obtain ⟨rest, hrest, hpath⟩ := Decisya.Bff.Configuration.under_same hsame
    (@Names.under_eq runtime _ _ _ _ _ _ _ h)
  rw [@Names.under_eq runtime _ _ _ _ _ _ _ h'] at hrest
  obtain rfl := Option.some.inj hrest
  have hsegment := Decisya.Bff.Configuration.segment_same hpath
  rw [h.segment_eq, h'.segment_eq] at hsegment
  have hlimit : limit = limit' := by
    have hclass := BffRateLimitOptions.classOf_same hsegment
    rw [h.classOf_eq hkelvin, h'.classOf_eq hkelvin'] at hclass
    exact Option.some.inj hclass
  refine ⟨hlimit, ?_⟩
  subst hlimit
  have hunder : under runtime p (child p s) = some s :=
    Decisya.Bff.Configuration.under_eq_some_iff.mpr ⟨p, rfl, Decisya.Bff.Configuration.same_refl p⟩
  obtain ⟨own, hown, hs⟩ := Decisya.Bff.Configuration.under_same hpath hunder
  obtain ⟨q, hq, hqp⟩ := Decisya.Bff.Configuration.under_eq_some_iff.mp hown
  have hown' : own = s' := by
    have hp' : under runtime p (child p' s') = some s' :=
      Decisya.Bff.Configuration.under_eq_some_iff.mpr
        ⟨p', rfl, Decisya.Bff.Configuration.same_symm hsegment⟩
    rw [hp'] at hown
    exact (Option.some.inj hown).symm
  rw [hown'] at hs
  have hsetting := @BffRateLimitOptions.settingOf_same runtime _ _ limit hs
  rw [h.settingOf_eq, h'.settingOf_eq] at hsetting
  exact Option.some.inj hsetting

/-- Without the Kelvin sign, what is read from an accepted name as it stands is valid. -/
theorem validPath_of_accepted (haccepted : Accepted table environment)
    (hkelvin : NoKelvin table environment) (h : Loads runtime environment [] full value)
    (hunder : under runtime sectionName full = some rest) :
    BffRateLimitOptions.ValidPath runtime (build runtime environment) rest := by
  obtain ⟨name, hname, rfl⟩ := loads_nil_iff.mp h
  have hstart : startsWith (table.lower (replaceColon name)) settingsStart = true :=
    startsWith_of_under hunder
  obtain ⟨limit, setting, b, r, p, s, hnames, -, -⟩ := exists_names (haccepted _ hname) hstart
  have hp : kelvin ∉ p := fun hmem => hkelvin _ hname hstart (hnames.kelvin_mem_iff.mpr hmem)
  rw [@Names.under_eq runtime _ _ _ _ _ _ _ hnames] at hunder
  obtain rfl := Option.some.inj hunder
  refine ⟨limit, ?_, ?_, ?_⟩
  · rw [hnames.segment_eq]
    exact hnames.classOf_eq hp
  · intro hnil
    have hnone := Decisya.Bff.Configuration.getChildren_eq_nil_iff.mp hnil _ (reads_of_loads_nil h)
    have hbelow : under runtime (child sectionName (segment (child p s))) (normalize name) = some s := by
      rw [hnames.segment_eq]
      exact Decisya.Bff.Configuration.under_child_iff.mpr ⟨child p s, hnames.under_eq,
        Decisya.Bff.Configuration.under_eq_some_iff.mpr
          ⟨p, rfl, Decisya.Bff.Configuration.same_refl p⟩⟩
    rw [hbelow] at hnone
    cases hnone
  · intro own hown
    rw [hnames.segment_eq] at hown ⊢
    have hs : under runtime p (child p s) = some s :=
      Decisya.Bff.Configuration.under_eq_some_iff.mpr
        ⟨p, rfl, Decisya.Bff.Configuration.same_refl p⟩
    rw [hs] at hown
    obtain rfl := Option.some.inj hown
    -- The value in force is that of an accepted entry, perhaps under another spelling.
    obtain ⟨key', value', hvalue, hsame, hloads⟩ :=
      Decisya.Bff.Configuration.loads_of_value h
    obtain ⟨name', hname', rfl⟩ := loads_nil_iff.mp hloads
    obtain ⟨rest', hrest', -⟩ := Decisya.Bff.Configuration.under_same
      (Decisya.Bff.Configuration.same_symm hsame) (@Names.under_eq runtime _ _ _ _ _ _ _ hnames)
    have hstart' : startsWith (table.lower (replaceColon name')) settingsStart = true :=
      startsWith_of_under hrest'
    obtain ⟨limit', setting', b', r', p', s', hnames', hnumber, hrange⟩ :=
      exists_names (haccepted _ hname') hstart'
    have hp' : kelvin ∉ p' :=
      fun hmem => hkelvin _ hname' hstart' (hnames'.kelvin_mem_iff.mpr hmem)
    obtain ⟨rfl, rfl⟩ := hnames.unique hnames' hp hp' (Decisya.Bff.Configuration.same_symm hsame)
    refine ⟨setting, _, hnames.settingOf_eq, ?_, hrange⟩
    rw [← Decisya.Bff.Configuration.value_same hnames.same_path, hvalue]
    exact hnumber

/-- A stack whose entries all pass starts, as far as its limits go, exactly when no name has the
Kelvin sign and what the host reads below one of its own prefixes is valid too. -/
theorem validate_iff_of_accepted (runtime : Runtime) (table : CaseTable)
    (environment : List (Str × Str)) (haccepted : Accepted table environment) :
    validate (({} : BffRateLimitOptions).load runtime (build runtime environment)) = [] ↔
      NoKelvin table environment ∧
        ∀ start ∈ hostPrefixes, ∀ key value, Loads runtime environment start key value →
          ∀ rest, under runtime sectionName key = some rest →
            BffRateLimitOptions.ValidPath runtime (build runtime environment) rest := by
  rw [BffRateLimitOptions.validate_build_iff]
  constructor
  · intro h
    constructor
    · intro entry hentry hstart hmem
      obtain ⟨name, value⟩ := entry
      obtain ⟨limit, setting, b, r, p, s, hnames, -, -⟩ :=
        exists_names (haccepted _ hentry) hstart
      have hloads : Loads runtime environment [] (normalize name) value :=
        loads_nil_iff.mpr ⟨name, hentry, rfl⟩
      obtain ⟨limit', hclass, -⟩ := h _ _ (reads_of_loads_nil hloads) hnames.under_eq
      rw [hnames.segment_eq] at hclass
      exact kelvin_not_mem_of_classOf hclass (hnames.kelvin_mem_iff.mp hmem)
    · intro start hstart key value hloads rest hunder
      exact h key rest ⟨start, List.mem_append_left _ hstart, value, hloads⟩ hunder
  · intro h full rest hreads hunder
    obtain ⟨hkelvin, hhost⟩ := h
    obtain ⟨start, hstart, value, hloads⟩ := hreads
    rcases List.mem_append.mp hstart with hprefixed | hplain
    · exact hhost start hprefixed full value hloads rest hunder
    · obtain rfl := List.mem_singleton.mp hplain
      exact validPath_of_accepted haccepted hkelvin hloads hunder

end Stack

/-! ## Stacks with one entry -/

/-- Upper case of ASCII only, and children as they come. -/
def asciiRuntime : Runtime where
  upper c := if c.toNat < 128 then c.toUpper else c
  upper_ascii _ hc := if_pos hc
  upper_other c hc := by
    rw [if_neg (by omega)]
    exact hc
  sort keys := keys
  sort_perm keys := List.Perm.refl keys

def loginLimit : List (Str × Str) :=
  [("Bff:RateLimits__login__PermitLimit".toList, "20".toList)]

theorem accepted_loginLimit : Accepted CaseTable.identity loginLimit := by
  unfold Accepted loginLimit
  decide

theorem loginLimit_validates :
    validate (({} : BffRateLimitOptions).load asciiRuntime (build asciiRuntime loginLimit)) = [] := by
  apply (validate_iff_of_accepted asciiRuntime CaseTable.identity loginLimit
    accepted_loginLimit).mpr
  constructor
  · unfold NoKelvin loginLimit
    decide
  · intro start hstart key value hloads
    obtain ⟨name, hname, hstripped⟩ := hloads
    obtain ⟨rfl, -⟩ := Prod.mk.inj (List.mem_singleton.mp hname)
    have hnone : stripped asciiRuntime start
        (normalize "Bff:RateLimits__login__PermitLimit".toList) = none := by
      rcases List.mem_pair.mp hstart with rfl | rfl
      · decide
      · decide
    rw [hnone] at hstripped
    cases hstripped

def zeroBelowHost : List (Str × Str) :=
  [("ASPNETCORE_Bff__RateLimits__login__PermitLimit".toList, "0".toList)]

def kelvinClass : List (Str × Str) :=
  [("Bff__RateLimits__bac".toList ++ kelvin :: "channel_logout__PermitLimit".toList, "20".toList)]

/-- The check passes both, and the BFF starts with neither. -/
theorem accepted_not_valid :
    (Accepted CaseTable.identity zeroBelowHost ∧
      validate (({} : BffRateLimitOptions).load asciiRuntime (build asciiRuntime zeroBelowHost)) ≠
        []) ∧
      Accepted CaseTable.identity kelvinClass ∧
        validate (({} : BffRateLimitOptions).load asciiRuntime (build asciiRuntime kelvinClass)) ≠
          [] := by
  unfold Accepted zeroBelowHost kelvinClass
  decide

end Decisya.Deploy.RateLimitCheck
