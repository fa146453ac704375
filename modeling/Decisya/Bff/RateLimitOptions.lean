import Decisya.Bff.Configuration

/-!
# The limits of the rate limiter

`Bff:RateLimits:<class>:*` is bound by hand. A child that is no setting is a problem, the
problems are collected, and the validator fails on any of them and on a limit out of range.
-/

namespace Decisya.Bff.RateLimiting

set_option autoImplicit false

open Decisya.Bff.Configuration (Str Runtime Root same child delimiter segment under getChildren value
  Reads build)

/-! ## Whole numbers -/

def natural (digits : Str) : ℕ := digits.foldl (fun n c => 10 * n + (c.toNat - 48)) 0

/-- `int.TryParse` with `AllowLeadingSign`, which takes nothing after the digits but NUL. -/
def tryParse (text : Str) : Option ℤ :=
  let negative := text.head? == some '-'
  let unsigned := if negative || text.head? == some '+' then text.tail else text
  let digits := unsigned.takeWhile Char.isDigit
  let n : ℤ := if negative then -natural digits else natural digits
  if digits.isEmpty || !(unsigned.dropWhile Char.isDigit).all (· == Char.ofNat 0) then none
  else if -2 ^ 31 ≤ n ∧ n < 2 ^ 31 then some n
  else none

def decimal (n : ℕ) : Str := Nat.toDigits 10 n

/-! ## The options -/

inductive RouteClass where
  | login
  | backchannelLogout
  | api
  | admin
  deriving DecidableEq, Repr

/-- `RateLimitNames.Of` -/
def RouteClass.name : RouteClass → Str
  | .login => "login".toList
  | .backchannelLogout => "backchannel_logout".toList
  | .api => "api".toList
  | .admin => "admin".toList

def RouteClass.values : List RouteClass := [.login, .backchannelLogout, .api, .admin]

inductive Setting where
  | permitLimit
  | windowSeconds
  | anonymousPermitLimit
  deriving DecidableEq, Repr

def Setting.name : Setting → Str
  | .permitLimit => "PermitLimit".toList
  | .windowSeconds => "WindowSeconds".toList
  | .anonymousPermitLimit => "AnonymousPermitLimit".toList

structure ClassLimit where
  permitLimit : ℤ
  windowSeconds : ℤ
  anonymousPermitLimit : ℤ := 0
  deriving Repr

def ClassLimit.get (limit : ClassLimit) : Setting → ℤ
  | .permitLimit => limit.permitLimit
  | .windowSeconds => limit.windowSeconds
  | .anonymousPermitLimit => limit.anonymousPermitLimit

def ClassLimit.put (limit : ClassLimit) (n : ℤ) : Setting → ClassLimit
  | .permitLimit => { limit with permitLimit := n }
  | .windowSeconds => { limit with windowSeconds := n }
  | .anonymousPermitLimit => { limit with anonymousPermitLimit := n }

def sectionName : Str := "Bff:RateLimits".toList

def maxPermitLimit : ℕ := 100000

def maxWindowSeconds : ℕ := 3600

structure BffRateLimitOptions where
  login : ClassLimit := { permitLimit := 10, windowSeconds := 60 }
  backchannelLogout : ClassLimit := { permitLimit := 300, windowSeconds := 60 }
  api : ClassLimit := { permitLimit := 300, windowSeconds := 60, anonymousPermitLimit := 60 }
  admin : ClassLimit := { permitLimit := 30, windowSeconds := 60 }
  loadProblems : List Str := []
  deriving Repr

namespace BffRateLimitOptions

/-- `For` -/
def limitFor (options : BffRateLimitOptions) : RouteClass → ClassLimit
  | .login => options.login
  | .backchannelLogout => options.backchannelLogout
  | .api => options.api
  | .admin => options.admin

def get (options : BffRateLimitOptions) (routeClass : RouteClass) (setting : Setting) : ℤ :=
  (options.limitFor routeClass).get setting

def put (options : BffRateLimitOptions) (routeClass : RouteClass) (setting : Setting) (n : ℤ) :
    BffRateLimitOptions :=
  match routeClass with
  | .login => { options with login := options.login.put n setting }
  | .backchannelLogout =>
    { options with backchannelLogout := options.backchannelLogout.put n setting }
  | .api => { options with api := options.api.put n setting }
  | .admin => { options with admin := options.admin.put n setting }

def addProblem (options : BffRateLimitOptions) (problem : Str) : BffRateLimitOptions :=
  { options with loadProblems := options.loadProblems ++ [problem] }

section Load
variable (runtime : Runtime)

def classOf (key : Str) : Option RouteClass :=
  if same runtime key RouteClass.login.name then some .login
  else if same runtime key RouteClass.backchannelLogout.name then some .backchannelLogout
  else if same runtime key RouteClass.api.name then some .api
  else if same runtime key RouteClass.admin.name then some .admin
  else none

/-- The property that a setting of the class is assigned to. -/
def settingOf (limit : RouteClass) (key : Str) : Option Setting :=
  if same runtime key Setting.permitLimit.name then some .permitLimit
  else if same runtime key Setting.windowSeconds.name then some .windowSeconds
  else if limit = .api ∧ same runtime key Setting.anonymousPermitLimit.name = true then
    some .anonymousPermitLimit
  else none

variable (root : Root)

def assign (path : Str) (limit : RouteClass) (setting : Setting) (options : BffRateLimitOptions) :
    BffRateLimitOptions :=
  if (getChildren runtime root path).isEmpty then
    match (value runtime root path).bind tryParse with
    | some n => options.put limit setting n
    | none => options.addProblem (path ++ " must be a whole number.".toList)
  else options.addProblem (path ++ " must be a whole number.".toList)

def loadSetting (classPath : Str) (limit : RouteClass) (options : BffRateLimitOptions)
    (key : Str) : BffRateLimitOptions :=
  let path := child classPath key
  match settingOf runtime limit key with
  | some setting => options.assign runtime root path limit setting
  | none => options.addProblem (path ++ " is not a known setting.".toList)

def loadClass (options : BffRateLimitOptions) (key : Str) : BffRateLimitOptions :=
  let classPath := child sectionName key
  match classOf runtime key with
  | none =>
    options.addProblem (classPath ++
      " is not a known route class (login, backchannel_logout, api, admin).".toList)
  | some limit =>
    let settings := getChildren runtime root classPath
    if settings.isEmpty then
      options.addProblem (classPath ++ " must contain PermitLimit and WindowSeconds settings.".toList)
    else settings.foldl (loadSetting runtime root classPath limit) options

def load (options : BffRateLimitOptions) : BffRateLimitOptions :=
  (getChildren runtime root sectionName).foldl (loadClass runtime root) options

end Load
end BffRateLimitOptions

/-! ## The validator -/

def checkRange (path : Str) (top : ℕ) (n : ℤ) : List Str :=
  if n < 1 ∨ (top : ℤ) < n then
    [path ++ " must be a whole number from 1 to ".toList ++ decimal top ++ ".".toList]
  else []

def checkPermits (path : Str) (n : ℤ) : List Str := checkRange path maxPermitLimit n

def checkClass (options : BffRateLimitOptions) (routeClass : RouteClass) : List Str :=
  let path := child sectionName routeClass.name
  checkPermits (path ++ ":PermitLimit".toList) (options.limitFor routeClass).permitLimit ++
    checkRange (path ++ ":WindowSeconds".toList) maxWindowSeconds
      (options.limitFor routeClass).windowSeconds

/-- The failures; none of them is `ValidateOptionsResult.Success`. -/
def validate (options : BffRateLimitOptions) : List Str :=
  options.loadProblems ++ RouteClass.values.flatMap (checkClass options) ++
    checkPermits (sectionName ++ ":api:AnonymousPermitLimit".toList) options.api.anonymousPermitLimit

/-! ## What the validator accepts -/

namespace Setting

def top : Setting → ℕ
  | .permitLimit => maxPermitLimit
  | .windowSeconds => maxWindowSeconds
  | .anonymousPermitLimit => maxPermitLimit

def InRange (setting : Setting) (n : ℤ) : Prop := 1 ≤ n ∧ n ≤ setting.top

/-- Only one class has the limit for callers without a session. -/
def Of (limit : RouteClass) (setting : Setting) : Prop :=
  setting = .anonymousPermitLimit → limit = .api

end Setting

open Decisya.Bff.Configuration (same_trans same_symm same_refl)

theorem checkRange_eq_nil_iff {path : Str} {top : ℕ} {n : ℤ} :
    checkRange path top n = [] ↔ 1 ≤ n ∧ n ≤ top := by
  unfold checkRange
  split
  · refine iff_of_false (List.cons_ne_nil _ _) ?_
    omega
  · refine iff_of_true rfl ?_
    omega

theorem validate_eq_nil_iff {options : BffRateLimitOptions} :
    validate options = [] ↔ options.loadProblems = [] ∧
      ∀ limit setting, Setting.Of limit setting → setting.InRange (options.get limit setting) := by
  unfold validate checkClass checkPermits
  rw [List.append_eq_nil_iff, List.append_eq_nil_iff, List.flatMap_eq_nil_iff, and_assoc]
  simp only [List.append_eq_nil_iff, checkRange_eq_nil_iff]
  apply and_congr_right
  intro _
  constructor
  · intro h limit setting hof
    obtain ⟨hclasses, hanonymous⟩ := h
    obtain ⟨hpermits, hwindow⟩ := hclasses limit (by cases limit <;> decide)
    cases setting with
    | permitLimit => exact hpermits
    | windowSeconds => exact hwindow
    | anonymousPermitLimit =>
      rw [hof rfl]
      exact hanonymous
  · intro h
    refine ⟨fun limit _ => ⟨h limit .permitLimit (fun hs => by cases hs), ?_⟩,
      h .api .anonymousPermitLimit fun _ => rfl⟩
    exact h limit .windowSeconds fun hs => by cases hs

/-- The limits of the code are limits the validator takes. -/
theorem validate_default : validate {} = [] := by decide

namespace BffRateLimitOptions

section Names
variable {runtime : Runtime} {key other : Str} {limit : RouteClass} {setting : Setting}

theorem classOf_same (h : same runtime key other = true) :
    classOf runtime key = classOf runtime other := by
  unfold classOf
  simp only [Configuration.same_congr h]

theorem settingOf_same (h : same runtime key other = true) :
    settingOf runtime limit key = settingOf runtime limit other := by
  unfold settingOf
  simp only [Configuration.same_congr h]

theorem same_of_classOf (h : classOf runtime key = some limit) :
    same runtime key limit.name = true := by
  unfold classOf at h
  split at h
  · rename_i hname
    obtain rfl := Option.some.inj h
    exact hname
  split at h
  · rename_i hname
    obtain rfl := Option.some.inj h
    exact hname
  split at h
  · rename_i hname
    obtain rfl := Option.some.inj h
    exact hname
  split at h
  · rename_i hname
    obtain rfl := Option.some.inj h
    exact hname
  · cases h

theorem same_of_settingOf (h : settingOf runtime limit key = some setting) :
    same runtime key setting.name = true ∧ Setting.Of limit setting := by
  unfold settingOf at h
  split at h
  · rename_i hname
    obtain rfl := Option.some.inj h
    exact ⟨hname, fun hs => by cases hs⟩
  split at h
  · rename_i hname
    obtain rfl := Option.some.inj h
    exact ⟨hname, fun hs => by cases hs⟩
  split at h
  · rename_i hname
    obtain rfl := Option.some.inj h
    exact ⟨hname.2, fun _ => hname.1⟩
  · cases h

/-- The name of a setting has no delimiter in any case. -/
theorem delimiter_not_mem_of_settingOf (h : settingOf runtime limit key = some setting) :
    delimiter ∉ key := by
  intro hmem
  have hsame := Configuration.same_iff.mp (same_of_settingOf h).1
  have hupper : delimiter ∈ key.map runtime.upper := by
    have hmap : runtime.upper delimiter ∈ key.map runtime.upper := List.mem_map_of_mem hmem
    rwa [Configuration.upper_delimiter] at hmap
  rw [hsame] at hupper
  obtain ⟨c, hc, hdelimiter⟩ := List.mem_map.mp hupper
  rw [Configuration.upper_eq_delimiter_iff] at hdelimiter
  subst hdelimiter
  revert hc
  cases setting <;> decide

end Names

section Fields
variable {options : BffRateLimitOptions} {limit limit' : RouteClass} {setting setting' : Setting}
  {n : ℤ} {problem : Str}

theorem get_put : (options.put limit setting n).get limit' setting' =
    if limit' = limit ∧ setting' = setting then n else options.get limit' setting' := by
  cases limit <;> cases limit' <;> cases setting <;> cases setting' <;> rfl

theorem loadProblems_put : (options.put limit setting n).loadProblems = options.loadProblems := by
  cases limit <;> rfl

theorem get_addProblem : (options.addProblem problem).get limit setting = options.get limit setting := by
  cases limit <;> rfl

theorem loadProblems_addProblem : (options.addProblem problem).loadProblems ≠ [] :=
  List.append_ne_nil_of_right_ne_nil _ (List.cons_ne_nil _ _)

end Fields
/-! ## What is loaded without a problem -/

/-- The path is a setting of the class and holds this whole number. -/
structure Gives (runtime : Runtime) (root : Root) (classPath : Str) (limit : RouteClass) (key : Str)
    (setting : Setting) (n : ℤ) : Prop where
  names : settingOf runtime limit key = some setting
  leaf : getChildren runtime root (child classPath key) = []
  number : (value runtime root (child classPath key)).bind tryParse = some n

section Loaded
variable {runtime : Runtime} {root : Root} {classPath classPath' key key' : Str}
  {limit : RouteClass} {options : BffRateLimitOptions} {setting : Setting} {n n' : ℤ}
  {keys settings : List Str}

theorem Gives.unique (hpath : same runtime (child classPath key) (child classPath' key') = true)
    (h : Gives runtime root classPath limit key setting n)
    (h' : Gives runtime root classPath' limit key' setting n') : n = n' := by
  have hnumber := h.number
  rw [Configuration.value_same hpath, h'.number] at hnumber
  exact (Option.some.inj hnumber).symm

theorem loadSetting_some (h : settingOf runtime limit key = some setting) :
    loadSetting runtime root classPath limit options key =
      options.assign runtime root (child classPath key) limit setting := by
  unfold loadSetting
  rw [h]

theorem assign_some {path : Str} (hleaf : getChildren runtime root path = [])
    (h : (value runtime root path).bind tryParse = some n) :
    options.assign runtime root path limit setting = options.put limit setting n := by
  unfold assign
  rw [hleaf, List.isEmpty_nil, if_pos rfl, h]

theorem assign_none {path : Str}
    (h : getChildren runtime root path ≠ [] ∨ (value runtime root path).bind tryParse = none) :
    options.assign runtime root path limit setting =
      options.addProblem (path ++ " must be a whole number.".toList) := by
  unfold assign
  split
  · rename_i hempty
    rw [h.resolve_left (not_not_intro (List.isEmpty_iff.mp hempty))]
  · rfl

theorem loadSetting_of_gives (h : Gives runtime root classPath limit key setting n) :
    loadSetting runtime root classPath limit options key = options.put limit setting n := by
  rw [loadSetting_some h.names, assign_some h.leaf h.number]

/-- A setting is assigned, or a problem is added. -/
theorem loadSetting_cases (runtime : Runtime) (root : Root) (classPath : Str) (limit : RouteClass)
    (options : BffRateLimitOptions) (key : Str) :
    (∃ setting n, Gives runtime root classPath limit key setting n) ∨
      ((¬ ∃ setting n, Gives runtime root classPath limit key setting n) ∧
        ∃ problem, loadSetting runtime root classPath limit options key =
          options.addProblem problem) := by
  cases hnames : settingOf runtime limit key with
  | none =>
    refine Or.inr ⟨?_, child classPath key ++ " is not a known setting.".toList, ?_⟩
    · intro h
      obtain ⟨setting, n, h⟩ := h
      rw [h.names] at hnames
      cases hnames
    · unfold loadSetting
      rw [hnames]
  | some setting =>
    rw [loadSetting_some hnames]
    by_cases hleaf : getChildren runtime root (child classPath key) = []
    · cases hnumber : (value runtime root (child classPath key)).bind tryParse with
      | none =>
        refine Or.inr ⟨?_, _, assign_none (Or.inr hnumber)⟩
        intro h
        obtain ⟨setting, n, h⟩ := h
        rw [h.number] at hnumber
        cases hnumber
      | some n => exact Or.inl ⟨setting, n, hnames, hleaf, hnumber⟩
    · refine Or.inr ⟨?_, _, assign_none (Or.inl hleaf)⟩
      intro h
      obtain ⟨_, _, h⟩ := h
      exact hleaf h.leaf

/-- Problems are only added. -/
theorem foldl_clean_iff {α : Type} {step : BffRateLimitOptions → α → BffRateLimitOptions}
    {Good : α → Prop} {items : List α}
    (hstep : ∀ options a, (step options a).loadProblems = [] ↔ options.loadProblems = [] ∧ Good a) :
    (items.foldl step options).loadProblems = [] ↔
      options.loadProblems = [] ∧ ∀ a ∈ items, Good a := by
  induction items generalizing options with
  | nil => simp
  | cons a items ih =>
    rw [List.foldl_cons, ih, hstep, List.forall_mem_cons, and_assoc]

theorem loadSetting_clean_iff :
    (loadSetting runtime root classPath limit options key).loadProblems = [] ↔
      options.loadProblems = [] ∧ ∃ setting n, Gives runtime root classPath limit key setting n := by
  rcases loadSetting_cases runtime root classPath limit options key with
    ⟨setting, n, h⟩ | ⟨hnone, problem, h⟩
  · rw [loadSetting_of_gives h, loadProblems_put]
    exact (and_iff_left ⟨setting, n, h⟩).symm
  · rw [h]
    exact iff_of_false loadProblems_addProblem fun h => hnone h.2

/-- A class that is known and has settings only. -/
def GoodClass (runtime : Runtime) (root : Root) (key : Str) : Prop :=
  ∃ limit, classOf runtime key = some limit ∧
    getChildren runtime root (child sectionName key) ≠ [] ∧
    ∀ own ∈ getChildren runtime root (child sectionName key),
      ∃ setting n, Gives runtime root (child sectionName key) limit own setting n

theorem loadClass_of_classOf (h : classOf runtime key = some limit)
    (hne : getChildren runtime root (child sectionName key) ≠ []) :
    loadClass runtime root options key = (getChildren runtime root (child sectionName key)).foldl
      (loadSetting runtime root (child sectionName key) limit) options := by
  unfold loadClass
  rw [h]
  exact if_neg (by rwa [List.isEmpty_iff])

theorem loadClass_of_nil (h : classOf runtime key = some limit)
    (hnil : getChildren runtime root (child sectionName key) = []) :
    (loadClass runtime root options key).loadProblems ≠ [] := by
  have hproblem : loadClass runtime root options key = options.addProblem
      (child sectionName key ++ " must contain PermitLimit and WindowSeconds settings.".toList) := by
    unfold loadClass
    rw [h]
    exact if_pos (by rw [hnil]; rfl)
  rw [hproblem]
  exact loadProblems_addProblem

theorem loadClass_clean_iff :
    (loadClass runtime root options key).loadProblems = [] ↔
      options.loadProblems = [] ∧ GoodClass runtime root key := by
  cases hclass : classOf runtime key with
  | none =>
    have hproblem : (loadClass runtime root options key).loadProblems ≠ [] := by
      unfold loadClass
      rw [hclass]
      exact loadProblems_addProblem
    refine iff_of_false hproblem ?_
    intro h
    obtain ⟨-, limit, hlimit, -⟩ := h
    rw [hlimit] at hclass
    cases hclass
  | some limit =>
    by_cases hnil : getChildren runtime root (child sectionName key) = []
    · refine iff_of_false (loadClass_of_nil hclass hnil) ?_
      intro h
      obtain ⟨-, limit', -, hne, -⟩ := h
      exact hne hnil
    · rw [loadClass_of_classOf hclass hnil]
      have hsettings : ((getChildren runtime root (child sectionName key)).foldl
          (loadSetting runtime root (child sectionName key) limit) options).loadProblems = [] ↔
          options.loadProblems = [] ∧ ∀ own ∈ getChildren runtime root (child sectionName key),
            ∃ setting n, Gives runtime root (child sectionName key) limit own setting n :=
        foldl_clean_iff fun _ _ => loadSetting_clean_iff
      rw [hsettings]
      apply and_congr_right
      intro _
      constructor
      · intro h
        exact ⟨limit, hclass, hnil, h⟩
      · intro h
        obtain ⟨limit', hlimit', -, h⟩ := h
        rw [hclass] at hlimit'
        obtain rfl := Option.some.inj hlimit'
        exact h

theorem load_clean_iff :
    (options.load runtime root).loadProblems = [] ↔ options.loadProblems = [] ∧
      ∀ key ∈ getChildren runtime root sectionName, GoodClass runtime root key :=
  foldl_clean_iff fun _ _ => loadClass_clean_iff

theorem foldl_keeps {α : Type} {step : BffRateLimitOptions → α → BffRateLimitOptions}
    {P : BffRateLimitOptions → Prop} {items : List α}
    (hstep : ∀ a ∈ items, ∀ options, P options → P (step options a)) (h : P options) :
    P (items.foldl step options) := by
  induction items generalizing options with
  | nil => exact h
  | cons a items ih =>
    have hfirst := hstep a List.mem_cons_self options h
    exact ih (fun b hb => hstep b (List.mem_cons_of_mem _ hb)) hfirst

/-- What one step establishes and every step keeps holds at the end. -/
theorem foldl_lands {α : Type} {step : BffRateLimitOptions → α → BffRateLimitOptions}
    {P : BffRateLimitOptions → Prop} {items : List α} {a : α}
    (hstep : ∀ a ∈ items, ∀ options, P options → P (step options a)) (ha : a ∈ items)
    (hland : ∀ options, P (step options a)) : P (items.foldl step options) := by
  induction items generalizing options with
  | nil => exact absurd ha List.not_mem_nil
  | cons b items ih =>
    have hrest : ∀ a ∈ items, ∀ options, P options → P (step options a) :=
      fun c hc => hstep c (List.mem_cons_of_mem _ hc)
    rw [List.foldl_cons]
    rcases List.mem_cons.mp ha with rfl | ha'
    · exact foldl_keeps hrest (hland options)
    · exact ih hrest ha'

/-- All of the children are settings, and each holds a number in its range. -/
def SoundClass (runtime : Runtime) (root : Root) (key : Str) : Prop :=
  ∃ limit, classOf runtime key = some limit ∧
    getChildren runtime root (child sectionName key) ≠ [] ∧
    ∀ own ∈ getChildren runtime root (child sectionName key),
      ∃ setting n, Gives runtime root (child sectionName key) limit own setting n ∧
        setting.InRange n

theorem SoundClass.good (h : SoundClass runtime root key) : GoodClass runtime root key := by
  obtain ⟨limit, hclass, hne, howns⟩ := h
  refine ⟨limit, hclass, hne, ?_⟩
  intro own hown
  obtain ⟨setting, n, hgives, -⟩ := howns own hown
  exact ⟨setting, n, hgives⟩

def Ranged (options : BffRateLimitOptions) : Prop :=
  ∀ limit setting, Setting.Of limit setting → setting.InRange (options.get limit setting)

theorem Ranged.put (h : Ranged options) (hn : setting.InRange n) :
    Ranged (options.put limit setting n) := by
  intro limit' setting' hof
  rw [get_put]
  split
  · rename_i heq
    rw [heq.2]
    exact hn
  · exact h limit' setting' hof

theorem ranged_loadClass (hsound : SoundClass runtime root key) (h : Ranged options) :
    Ranged (loadClass runtime root options key) := by
  obtain ⟨limit, hclass, hne, howns⟩ := hsound
  rw [loadClass_of_classOf hclass hne]
  apply foldl_keeps _ h
  intro own hown options hranged
  obtain ⟨setting, n, hgives, hn⟩ := howns own hown
  rw [loadSetting_of_gives hgives]
  exact hranged.put hn

/-- Two spellings of a class and two of a setting make one path. -/
theorem Gives.same_path {own own' : Str} (hclass : classOf runtime key = some limit)
    (hclass' : classOf runtime key' = some limit)
    (h : Gives runtime root (child sectionName key) limit own setting n)
    (h' : Gives runtime root (child sectionName key') limit own' setting n') :
    same runtime (child (child sectionName key) own) (child (child sectionName key') own') = true := by
  have hkey := same_trans (same_of_classOf hclass) (same_symm (same_of_classOf hclass'))
  have hown := same_trans (same_of_settingOf h.names).1 (same_symm (same_of_settingOf h'.names).1)
  exact Configuration.same_child (Configuration.same_child (same_refl _) hkey) hown

/-- Once a limit is what the configuration gives it, it stays so. -/
theorem get_loadSetting_keep {limit' : RouteClass} {own own' : Str}
    (hclass : classOf runtime key = some limit)
    (hgives : Gives runtime root (child sectionName key) limit own setting n)
    (hclass' : classOf runtime key' = some limit')
    (hown' : ∃ setting' n', Gives runtime root (child sectionName key') limit' own' setting' n')
    (h : options.get limit setting = n) :
    (loadSetting runtime root (child sectionName key') limit' options own').get limit setting = n := by
  obtain ⟨setting', n', hgives'⟩ := hown'
  rw [loadSetting_of_gives hgives', get_put]
  split
  · rename_i heq
    obtain ⟨rfl, rfl⟩ := heq
    exact (hgives.unique (hgives.same_path hclass hclass' hgives') hgives').symm
  · exact h

theorem get_loadClass_keep {own : Str} (hgood : GoodClass runtime root key')
    (hclass : classOf runtime key = some limit)
    (hgives : Gives runtime root (child sectionName key) limit own setting n)
    (h : options.get limit setting = n) :
    (loadClass runtime root options key').get limit setting = n := by
  obtain ⟨limit', hclass', hne, howns⟩ := hgood
  rw [loadClass_of_classOf hclass' hne]
  have hkeep : ∀ own' ∈ getChildren runtime root (child sectionName key'),
      ∀ options : BffRateLimitOptions, options.get limit setting = n →
        (loadSetting runtime root (child sectionName key') limit' options own').get limit setting =
          n :=
    fun own' hown' _ => get_loadSetting_keep hclass hgives hclass' (howns own' hown')
  exact foldl_keeps hkeep h

theorem get_loadClass_land {own : Str} (hgood : GoodClass runtime root key)
    (hclass : classOf runtime key = some limit)
    (hown : own ∈ getChildren runtime root (child sectionName key))
    (hgives : Gives runtime root (child sectionName key) limit own setting n) :
    (loadClass runtime root options key).get limit setting = n := by
  obtain ⟨limit', hclass', hne, howns⟩ := hgood
  obtain rfl := Option.some.inj (hclass.symm.trans hclass')
  rw [loadClass_of_classOf hclass hne]
  have hkeep : ∀ own' ∈ getChildren runtime root (child sectionName key),
      ∀ options : BffRateLimitOptions, options.get limit setting = n →
        (loadSetting runtime root (child sectionName key) limit options own').get limit setting =
          n :=
    fun own' hown' _ => get_loadSetting_keep hclass hgives hclass (howns own' hown')
  have hland : ∀ options : BffRateLimitOptions,
      (loadSetting runtime root (child sectionName key) limit options own).get limit setting =
        n := by
    intro options
    rw [loadSetting_of_gives hgives, get_put]
    exact if_pos ⟨rfl, rfl⟩
  exact foldl_lands hkeep hown hland

theorem get_load {own : Str}
    (hgood : ∀ key ∈ getChildren runtime root sectionName, GoodClass runtime root key)
    (hkey : key ∈ getChildren runtime root sectionName) (hclass : classOf runtime key = some limit)
    (hown : own ∈ getChildren runtime root (child sectionName key))
    (hgives : Gives runtime root (child sectionName key) limit own setting n) :
    (options.load runtime root).get limit setting = n := by
  have hkeep : ∀ key' ∈ getChildren runtime root sectionName,
      ∀ options : BffRateLimitOptions, options.get limit setting = n →
        (loadClass runtime root options key').get limit setting = n :=
    fun key' hkey' _ => get_loadClass_keep (hgood key' hkey') hclass hgives
  have hland : ∀ options : BffRateLimitOptions,
      (loadClass runtime root options key).get limit setting = n :=
    fun _ => get_loadClass_land (hgood key hkey) hclass hown hgives
  exact foldl_lands hkeep hkey hland

/-- The options are valid when everything below the section is a setting in its range. -/
theorem validate_load_iff :
    validate (({} : BffRateLimitOptions).load runtime root) = [] ↔
      ∀ key ∈ getChildren runtime root sectionName, SoundClass runtime root key := by
  obtain ⟨hproblems, hranged⟩ := validate_eq_nil_iff.mp validate_default
  rw [validate_eq_nil_iff, load_clean_iff]
  constructor
  · intro h key hkey
    obtain ⟨⟨-, hgood⟩, hrange⟩ := h
    obtain ⟨limit, hclass, hne, howns⟩ := hgood key hkey
    refine ⟨limit, hclass, hne, ?_⟩
    intro own hown
    obtain ⟨setting, n, hgives⟩ := howns own hown
    refine ⟨setting, n, hgives, ?_⟩
    have hfinal := hrange limit setting (same_of_settingOf hgives.names).2
    rwa [get_load hgood hkey hclass hown hgives] at hfinal
  · intro h
    refine ⟨⟨hproblems, fun key hkey => (h key hkey).good⟩, ?_⟩
    have hload : Ranged (({} : BffRateLimitOptions).load runtime root) :=
      foldl_keeps (fun key hkey _ => ranged_loadClass (h key hkey)) hranged
    exact hload

end Loaded

/-! ## The same for each variable -/

/-- A path below the section that is a class with settings or one of its settings, which then
holds a number in its range. -/
def ValidPath (runtime : Runtime) (root : Root) (rest : Str) : Prop :=
  ∃ limit, classOf runtime (segment rest) = some limit ∧
    getChildren runtime root (child sectionName (segment rest)) ≠ [] ∧
    ∀ own, under runtime (segment rest) rest = some own →
      ∃ setting n, settingOf runtime limit own = some setting ∧
        (value runtime root (child (child sectionName (segment rest)) own)).bind tryParse = some n ∧
        setting.InRange n

section Paths
variable {runtime : Runtime} {environment : List (Str × Str)} {full rest key own x : Str}

/-- Below a segment there is only what is below that segment in some spelling. -/
theorem segment_same_of_under (hkey : delimiter ∉ key) (h : under runtime key rest = some own) :
    same runtime (segment rest) key = true ∧ under runtime (segment rest) rest = some own := by
  obtain ⟨p, rfl, hp⟩ := Configuration.under_eq_some_iff.mp h
  have hclean : delimiter ∉ p := by
    intro hmem
    have hupper : runtime.upper delimiter ∈ p.map runtime.upper := List.mem_map_of_mem hmem
    rw [Configuration.upper_delimiter, Configuration.same_iff.mp hp] at hupper
    obtain ⟨c, hc, hdelimiter⟩ := List.mem_map.mp hupper
    rw [Configuration.upper_eq_delimiter_iff] at hdelimiter
    exact hkey (hdelimiter ▸ hc)
  rw [Configuration.segment_append hclean]
  exact ⟨hp, Configuration.under_eq_some_iff.mpr ⟨p, rfl, same_refl p⟩⟩

theorem validPath_of_soundClass
    (h : ∀ key ∈ getChildren runtime (build runtime environment) sectionName,
      SoundClass runtime (build runtime environment) key)
    (hreads : Reads runtime environment full) (hunder : under runtime sectionName full = some rest) :
    ValidPath runtime (build runtime environment) rest := by
  obtain ⟨key, hkey, hsame⟩ := Configuration.exists_mem_getChildren hreads hunder
  obtain ⟨limit, hclass, hne, howns⟩ := h key hkey
  have hpath : same runtime (child sectionName key) (child sectionName (segment rest)) = true :=
    Configuration.same_child (same_refl _) hsame
  refine ⟨limit, ?_, ?_, ?_⟩
  · rw [← classOf_same hsame]
    exact hclass
  · intro hnil
    exact hne ((Configuration.getChildren_parent_same hpath).mpr hnil)
  · intro own hown
    have hkeyOwn : under runtime key rest = some own :=
      Configuration.under_parent_same (same_symm hsame) hown
    have hfull : under runtime (child sectionName key) full = some own :=
      Configuration.under_child_iff.mpr ⟨rest, hunder, hkeyOwn⟩
    obtain ⟨key', hkey', hsame'⟩ := Configuration.exists_mem_getChildren hreads hfull
    obtain ⟨setting, n, hgives, hn⟩ := howns key' hkey'
    -- A longer path would be a child of the setting.
    have hleaf : own = segment own := by
      rcases Configuration.segment_cases own with heq | ⟨x, hx⟩
      · exact heq
      · have hbelow : under runtime key' own = some x :=
          Configuration.under_eq_some_iff.mpr ⟨segment own, hx, same_symm hsame'⟩
        have hnone := Configuration.getChildren_eq_nil_iff.mp hgives.leaf full hreads
        rw [Configuration.under_child_iff.mpr ⟨own, hfull, hbelow⟩] at hnone
        cases hnone
    rw [← hleaf] at hsame'
    refine ⟨setting, n, ?_, ?_, hn⟩
    · rw [← settingOf_same hsame']
      exact hgives.names
    · rw [← Configuration.value_same (Configuration.same_child hpath hsame')]
      exact hgives.number

theorem soundClass_of_validPath
    (h : ∀ full rest, Reads runtime environment full → under runtime sectionName full = some rest →
      ValidPath runtime (build runtime environment) rest)
    (hkey : key ∈ getChildren runtime (build runtime environment) sectionName) :
    SoundClass runtime (build runtime environment) key := by
  obtain ⟨full, rest, hreads, hunder, rfl⟩ := Configuration.reads_of_mem_getChildren hkey
  obtain ⟨limit, hclass, hne, -⟩ := h full rest hreads hunder
  -- Every path below the class, whatever its spelling, names a setting of it.
  have hbelow : ∀ full' own, Reads runtime environment full' →
      under runtime (child sectionName (segment rest)) full' = some own →
      ∃ setting n, settingOf runtime limit own = some setting ∧
        (value runtime (build runtime environment)
          (child (child sectionName (segment rest)) own)).bind tryParse = some n ∧
        setting.InRange n := by
    intro full' own hreads' hunder'
    obtain ⟨middle, hmiddle, hown⟩ := Configuration.under_child_iff.mp hunder'
    obtain ⟨hsame, hown'⟩ := segment_same_of_under Configuration.delimiter_not_mem_segment hown
    obtain ⟨limit', hclass', -, howns⟩ := h full' middle hreads' hmiddle
    rw [classOf_same hsame, hclass] at hclass'
    obtain rfl := Option.some.inj hclass'
    obtain ⟨setting, n, hnames, hnumber, hn⟩ := howns own hown'
    refine ⟨setting, n, hnames, ?_, hn⟩
    rw [← Configuration.value_same
      (Configuration.same_child (Configuration.same_child (same_refl _) hsame) (same_refl own))]
    exact hnumber
  refine ⟨limit, hclass, hne, ?_⟩
  intro own hown
  obtain ⟨full', own', hreads', hunder', rfl⟩ := Configuration.reads_of_mem_getChildren hown
  obtain ⟨setting, n, hnames, hnumber, hn⟩ := hbelow full' own' hreads' hunder'
  have hown' : segment own' = own' :=
    Configuration.segment_eq_self (delimiter_not_mem_of_settingOf hnames)
  rw [hown']
  refine ⟨setting, n, ⟨hnames, ?_, hnumber⟩, hn⟩
  apply Configuration.getChildren_eq_nil_iff.mpr
  intro key hkey'
  rw [Option.eq_none_iff_forall_not_mem]
  intro x hx
  obtain ⟨longer, hlonger, hx'⟩ := Configuration.under_child_iff.mp hx
  obtain ⟨setting', -, hnames', -⟩ := hbelow key longer hkey' hlonger
  obtain ⟨p, rfl, -⟩ := Configuration.under_eq_some_iff.mp hx'
  exact delimiter_not_mem_of_settingOf hnames'
    (List.mem_append_right p List.mem_cons_self)

theorem validate_build_iff :
    validate (({} : BffRateLimitOptions).load runtime (build runtime environment)) = [] ↔
      ∀ full rest, Reads runtime environment full → under runtime sectionName full = some rest →
        ValidPath runtime (build runtime environment) rest := by
  rw [validate_load_iff]
  constructor
  · intro h full rest hreads hunder
    exact validPath_of_soundClass h hreads hunder
  · intro h key hkey
    exact soundClass_of_validPath h hkey

end Paths
end BffRateLimitOptions

end Decisya.Bff.RateLimiting
