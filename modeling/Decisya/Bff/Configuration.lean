import Mathlib

/-!
# Configuration from the environment

The environment provider of the host reads the variables into a dictionary without regard to
case, with `__` for the delimiter. The host loads them once for each of its own prefixes, which
it removes, and once as they are; a later provider goes before an earlier one.
-/

namespace Decisya.Bff.Configuration

set_option autoImplicit false

abbrev Str := List Char

/-- What the runtime gives: upper case of one character, which maps nothing from outside ASCII
into it, and the order in which children are listed. -/
structure Runtime where
  upper : Char → Char
  upper_ascii : ∀ c, c.toNat < 128 → upper c = c.toUpper
  upper_other : ∀ c, 128 ≤ c.toNat → 128 ≤ (upper c).toNat
  sort : List Str → List Str
  sort_perm : ∀ keys, (sort keys).Perm keys

def delimiter : Char := ':'

/-- A double underscore stands for the delimiter. -/
def normalize : Str → Str
  | [] => []
  | '_' :: '_' :: rest => delimiter :: normalize rest
  | c :: rest => c :: normalize rest

abbrev Data := List (Str × Str)

section Provider
variable (runtime : Runtime)

/-- `OrdinalIgnoreCase` -/
def same (a b : Str) : Bool := a.map runtime.upper == b.map runtime.upper

/-- A key that is there keeps its spelling. -/
def set (data : Data) (key value : Str) : Data :=
  if data.any fun e => same runtime e.1 key then
    data.map fun e => if same runtime e.1 key then (e.1, value) else e
  else data ++ [(key, value)]

def stripped (start key : Str) : Option Str :=
  if same runtime (key.take start.length) start then some (key.drop start.length) else none

def load (start : Str) : List (Str × Str) → Data → Data
  | [], data => data
  | (key, value) :: environment, data =>
    load start environment
      (match stripped runtime start (normalize key) with
      | some key => set runtime data key value
      | none => data)

def tryGet (data : Data) (key : Str) : Option Str :=
  (data.find? fun e => same runtime e.1 key).map Prod.snd

/-- What follows the parent and a delimiter. -/
def under : Str → Str → Option Str
  | [], [] => none
  | [], c :: rest => if c = delimiter then some rest else none
  | _ :: _, [] => none
  | p :: parent, c :: rest => if runtime.upper p = runtime.upper c then under parent rest else none

def segment (rest : Str) : Str := rest.takeWhile fun c => c != delimiter

def childKeys (data : Data) (parent : Str) : List Str :=
  data.filterMap fun e => (under runtime parent e.1).map segment

/-- `Distinct` -/
def distinct : List Str → List Str
  | [] => []
  | key :: keys => key :: (distinct keys).filter fun other => !same runtime key other

/-- The providers, a later one before an earlier one. -/
abbrev Root := List Data

def getChildKeys : List Data → Str → List Str → List Str
  | [], _, earlier => earlier
  | data :: providers, parent, earlier =>
    getChildKeys providers parent (runtime.sort (childKeys runtime data parent ++ earlier))

def getChildren (root : Root) (parent : Str) : List Str :=
  distinct runtime (getChildKeys runtime root parent [])

def value (root : Root) (key : Str) : Option Str :=
  root.reverse.findSome? fun data => tryGet runtime data key

def child (parent key : Str) : Str := parent ++ delimiter :: key

def hostPrefixes : List Str := ["ASPNETCORE_".toList, "DOTNET_".toList]

/-- The prefixes of the host come first, and the variables as they are last. -/
def starts : List Str := hostPrefixes ++ [[]]

def build (environment : List (Str × Str)) : Root :=
  starts.map fun start => load runtime start environment []

end Provider

/-! ## Names without regard to case -/

section Same
variable {runtime : Runtime} {a b c : Str}

theorem same_iff : same runtime a b = true ↔ a.map runtime.upper = b.map runtime.upper := by
  unfold same
  exact beq_iff_eq

theorem same_refl (a : Str) : same runtime a a = true := same_iff.mpr rfl

theorem same_symm (h : same runtime a b = true) : same runtime b a = true :=
  same_iff.mpr (same_iff.mp h).symm

theorem same_trans (h : same runtime a b = true) (h' : same runtime b c = true) :
    same runtime a c = true :=
  same_iff.mpr ((same_iff.mp h).trans (same_iff.mp h'))

theorem same_congr (h : same runtime a b = true) : same runtime a c = same runtime b c := by
  unfold same
  rw [same_iff.mp h]

theorem upper_delimiter : runtime.upper delimiter = delimiter :=
  runtime.upper_ascii delimiter (by decide)

/-- An ASCII character that is no letter is the upper case of itself only. -/
theorem eq_of_upper_eq {c d : Char} (hd : d.toNat < 128) (hletter : d.isUpper = false)
    (h : runtime.upper c = d) : c = d := by
  by_cases hc : c.toNat < 128
  · rw [runtime.upper_ascii c hc] at h
    by_cases hlower : c.isLower = true
    · have hupper : c.toUpper.isUpper = true := by
        rw [Char.isUpper_toUpper_eq_isAlpha, Char.isAlpha, hlower, Bool.or_true]
      rw [h, hletter] at hupper
      cases hupper
    · rw [Char.toUpper_eq_of_not_isLower hlower] at h
      exact h
  · have hother := runtime.upper_other c (by omega)
    rw [h] at hother
    omega

theorem upper_eq_delimiter_iff {c : Char} : runtime.upper c = delimiter ↔ c = delimiter := by
  constructor
  · exact eq_of_upper_eq (by decide) (by decide)
  · rintro rfl
    exact upper_delimiter

end Same

/-! ## Separators in names -/

theorem normalize_cons {c : Char} {rest : Str} (h : c ≠ '_' ∨ rest.head? ≠ some '_') :
    normalize (c :: rest) = c :: normalize rest := by
  rw [normalize]
  intro tail hc hrest
  rcases h with h | h
  · exact h hc
  · exact h (by rw [hrest]; rfl)

/-- A name is read by two underscores or by one character. -/
theorem normalize_cases (name : Str) :
    name = [] ∨ (∃ rest, name = '_' :: '_' :: rest ∧ normalize name = delimiter :: normalize rest) ∨
      ∃ c rest, name = c :: rest ∧ normalize name = c :: normalize rest := by
  cases name with
  | nil => exact Or.inl rfl
  | cons c rest =>
    by_cases hc : c = '_'
    · cases rest with
      | nil => exact Or.inr (Or.inr ⟨c, [], rfl, normalize_cons (Or.inr (by simp))⟩)
      | cons d rest =>
        by_cases hd : d = '_'
        · subst hc hd
          exact Or.inr (Or.inl ⟨rest, rfl, rfl⟩)
        · exact Or.inr (Or.inr ⟨c, d :: rest, rfl, normalize_cons (Or.inr (by simpa using hd))⟩)
    · exact Or.inr (Or.inr ⟨c, rest, rfl, normalize_cons (Or.inl hc)⟩)

theorem mem_normalize_iff {c : Char} {name : Str} (hc : c ≠ '_') (hc' : c ≠ delimiter) :
    c ∈ normalize name ↔ c ∈ name := by
  induction name using normalize.induct with
  | case1 => rfl
  | case2 rest ih =>
    rw [normalize, List.mem_cons, List.mem_cons, List.mem_cons, ih]
    simp [hc, hc']
  | case3 d rest hne ih =>
    rw [normalize]
    · rw [List.mem_cons, List.mem_cons, ih]
    · exact hne

/-! ## What a provider holds -/

section Data
variable {runtime : Runtime} {data : Data} {key other value : Str}

theorem tryGet_congr (h : same runtime key other = true) :
    tryGet runtime data key = tryGet runtime data other := by
  have htest : ∀ e : Str × Str, same runtime e.1 key = same runtime e.1 other := by
    intro e
    rw [Bool.eq_iff_iff]
    exact ⟨fun he => same_trans he h, fun he => same_trans he (same_symm h)⟩
  unfold tryGet
  simp only [htest]

theorem tryGet_isSome : (tryGet runtime data key).isSome = true ↔
    ∃ e ∈ data, same runtime e.1 key = true := by
  unfold tryGet
  rw [Option.isSome_map, List.find?_isSome]

theorem tryGet_eq_some (h : tryGet runtime data key = some value) :
    ∃ e ∈ data, same runtime e.1 key = true ∧ e.2 = value := by
  obtain ⟨e, he, rfl⟩ := Option.map_eq_some_iff.mp h
  have hsame : same runtime e.1 key = true := by simpa using List.find?_some he
  exact ⟨e, List.mem_of_find?_eq_some he, hsame, rfl⟩

/-- The keys afterwards, as they are spelled. -/
theorem mem_set {e : Str × Str} (h : e ∈ set runtime data key value) :
    e = (key, value) ∨ (same runtime e.1 key = true ∧ e.2 = value ∧ ∃ v, (e.1, v) ∈ data) ∨
      (same runtime e.1 key = false ∧ e ∈ data) := by
  unfold set at h
  split at h
  · obtain ⟨e', he', rfl⟩ := List.mem_map.mp h
    split
    · rename_i hsame
      exact Or.inr (Or.inl ⟨hsame, rfl, e'.2, he'⟩)
    · rename_i hsame
      rw [Bool.not_eq_true] at hsame
      exact Or.inr (Or.inr ⟨hsame, he'⟩)
  · rename_i hnone
    rcases List.mem_append.mp h with he | he
    · cases hsame : same runtime e.1 key with
      | false => exact Or.inr (Or.inr ⟨rfl, he⟩)
      | true => exact absurd (List.any_eq_true.mpr ⟨e, he, hsame⟩) hnone
    · exact Or.inl (List.mem_singleton.mp he)

theorem exists_mem_set
    (h : same runtime key other = true ∨ ∃ e ∈ data, same runtime e.1 other = true) :
    ∃ e ∈ set runtime data key value, same runtime e.1 other = true := by
  unfold set
  split
  · rename_i hany
    obtain ⟨e, he, hsame⟩ : ∃ e ∈ data, same runtime e.1 other = true := by
      rcases h with hkey | h
      · obtain ⟨e, he, hsame⟩ := List.any_eq_true.mp hany
        exact ⟨e, he, same_trans hsame hkey⟩
      · exact h
    refine ⟨_, List.mem_map_of_mem he, ?_⟩
    split
    · exact hsame
    · exact hsame
  · rcases h with hkey | ⟨e, he, hsame⟩
    · exact ⟨(key, value), List.mem_append_right _ List.mem_cons_self, hkey⟩
    · exact ⟨e, List.mem_append_left _ he, hsame⟩

end Data

/-- A variable whose name the provider with this prefix reads as the key. -/
def Loads (runtime : Runtime) (environment : List (Str × Str)) (start key : Str) (value : Str) :
    Prop :=
  ∃ name, (name, value) ∈ environment ∧ stripped runtime start (normalize name) = some key

section Load
variable {runtime : Runtime} {environment : List (Str × Str)} {start key other value : Str}
  {data : Data}

theorem loads_cons {name v : Str} (h : Loads runtime environment start key value) :
    Loads runtime ((name, v) :: environment) start key value := by
  obtain ⟨name', hmem, hstripped⟩ := h
  exact ⟨name', List.mem_cons_of_mem _ hmem, hstripped⟩

/-- What is held was read from one variable, whose name may be another spelling. -/
theorem mem_load {e : Str × Str} (h : e ∈ load runtime start environment data) :
    e ∈ data ∨ ∃ k, same runtime k e.1 = true ∧ Loads runtime environment start k e.2 := by
  induction environment generalizing data with
  | nil => exact Or.inl h
  | cons entry environment ih =>
    obtain ⟨name, v⟩ := entry
    rw [load] at h
    rcases ih h with hmem | ⟨k, hsame, hloads⟩
    · split at hmem
      · rename_i k hk
        have hhere : Loads runtime ((name, v) :: environment) start k v :=
          ⟨name, List.mem_cons_self, hk⟩
        rcases mem_set hmem with rfl | ⟨hsame, hv, -⟩ | ⟨-, hold⟩
        · exact Or.inr ⟨k, same_refl k, hhere⟩
        · exact Or.inr ⟨k, same_symm hsame, hv ▸ hhere⟩
        · exact Or.inl hold
      · exact Or.inl hmem
    · exact Or.inr ⟨k, hsame, loads_cons hloads⟩

/-- The spelling of a key is that of one variable. -/
theorem key_mem_load {e : Str × Str} (h : e ∈ load runtime start environment data) :
    (∃ v, (e.1, v) ∈ data) ∨ ∃ v, Loads runtime environment start e.1 v := by
  induction environment generalizing data with
  | nil => exact Or.inl ⟨e.2, h⟩
  | cons entry environment ih =>
    obtain ⟨name, v⟩ := entry
    rw [load] at h
    rcases ih h with ⟨v', hmem⟩ | ⟨v', hloads⟩
    · split at hmem
      · rename_i k hk
        rcases mem_set hmem with heq | ⟨-, -, hold⟩ | ⟨-, hold⟩
        · obtain ⟨hkey, -⟩ := Prod.mk.inj heq
          exact Or.inr ⟨v, name, List.mem_cons_self, hkey ▸ hk⟩
        · exact Or.inl hold
        · exact Or.inl ⟨v', hold⟩
      · exact Or.inl ⟨v', hmem⟩
    · exact Or.inr ⟨v', loads_cons hloads⟩

/-- What was read stays, in some spelling. -/
theorem exists_mem_load
    (h : (∃ e ∈ data, same runtime e.1 other = true) ∨
      ∃ k v, same runtime k other = true ∧ Loads runtime environment start k v) :
    ∃ e ∈ load runtime start environment data, same runtime e.1 other = true := by
  induction environment generalizing data with
  | nil =>
    rcases h with h | ⟨_, _, _, _, hmem, _⟩
    · exact h
    · exact absurd hmem List.not_mem_nil
  | cons entry environment ih =>
    obtain ⟨name, v⟩ := entry
    rw [load]
    apply ih
    rcases h with hold | ⟨k, v', hsame, name', hmem, hstripped⟩
    · left
      split
      · exact exists_mem_set (Or.inr hold)
      · exact hold
    · rcases List.mem_cons.mp hmem with heq | hrest
      · obtain ⟨rfl, rfl⟩ := Prod.mk.inj heq
        left
        rw [hstripped]
        exact exists_mem_set (Or.inl hsame)
      · exact Or.inr ⟨k, v', hsame, name', hrest, hstripped⟩

end Load

/-! ## Keys below a parent -/

section Under
variable {runtime : Runtime} {a b key other parent rest : Str}

theorem same_cons_iff {c d : Char} :
    same runtime (c :: a) (d :: b) = true ↔
      runtime.upper c = runtime.upper d ∧ same runtime a b = true := by
  rw [same_iff, same_iff, List.map_cons, List.map_cons, List.cons.injEq]

theorem same_nil_iff : same runtime a [] = true ↔ a = [] := by
  rw [same_iff, List.map_nil, List.map_eq_nil_iff]

/-- What is the same as two words in a row is two words in a row. -/
theorem same_append_iff :
    same runtime key (a ++ b) = true ↔
      ∃ p q, key = p ++ q ∧ same runtime p a = true ∧ same runtime q b = true := by
  rw [same_iff, List.map_append, List.map_eq_append_iff]
  simp only [same_iff]

theorem same_delimiter_cons_iff :
    same runtime key (delimiter :: b) = true ↔
      ∃ q, key = delimiter :: q ∧ same runtime q b = true := by
  constructor
  · intro h
    cases key with
    | nil => exact absurd (same_nil_iff.mp (same_symm h)) (List.cons_ne_nil _ _)
    | cons c q =>
      obtain ⟨hc, hq⟩ := same_cons_iff.mp h
      rw [upper_delimiter] at hc
      exact ⟨q, by rw [upper_eq_delimiter_iff.mp hc], hq⟩
  · intro h
    obtain ⟨q, rfl, hq⟩ := h
    exact same_cons_iff.mpr ⟨rfl, hq⟩

theorem under_eq_some_iff :
    under runtime parent key = some rest ↔
      ∃ p, key = p ++ delimiter :: rest ∧ same runtime p parent = true := by
  induction parent generalizing key with
  | nil =>
    cases key with
    | nil =>
      refine iff_of_false (fun h => by cases h) ?_
      intro h
      obtain ⟨p, hp, -⟩ := h
      exact absurd hp.symm (List.append_ne_nil_of_right_ne_nil p (List.cons_ne_nil _ _))
    | cons c key =>
      rw [under]
      constructor
      · intro h
        split at h
        · rename_i hc
          obtain rfl := Option.some.inj h
          exact ⟨[], by rw [hc]; rfl, same_refl []⟩
        · cases h
      · intro h
        obtain ⟨p, hp, hsame⟩ := h
        obtain rfl := same_nil_iff.mp hsame
        obtain ⟨rfl, rfl⟩ := List.cons.inj hp
        exact if_pos rfl
  | cons d parent ih =>
    cases key with
    | nil =>
      refine iff_of_false (fun h => by cases h) ?_
      intro h
      obtain ⟨p, hp, -⟩ := h
      exact absurd hp.symm (List.append_ne_nil_of_right_ne_nil p (List.cons_ne_nil _ _))
    | cons c key =>
      rw [under]
      constructor
      · intro h
        split at h
        · rename_i hc
          obtain ⟨p, rfl, hp⟩ := ih.mp h
          exact ⟨c :: p, rfl, same_cons_iff.mpr ⟨hc.symm, hp⟩⟩
        · cases h
      · intro h
        obtain ⟨p, hp, hsame⟩ := h
        cases p with
        | nil => exact absurd (same_nil_iff.mp (same_symm hsame)) (List.cons_ne_nil _ _)
        | cons e p =>
          obtain ⟨rfl, rfl⟩ := List.cons.inj hp
          obtain ⟨hc, hp'⟩ := same_cons_iff.mp hsame
          rw [if_pos hc.symm]
          exact ih.mpr ⟨p, rfl, hp'⟩

theorem same_child (hparent : same runtime parent other = true) (h : same runtime a b = true) :
    same runtime (child parent a) (child other b) = true :=
  same_append_iff.mpr ⟨parent, delimiter :: a, rfl, hparent, same_cons_iff.mpr ⟨rfl, h⟩⟩

theorem under_child_iff :
    under runtime (child parent a) key = some rest ↔
      ∃ middle, under runtime parent key = some middle ∧ under runtime a middle = some rest := by
  simp only [under_eq_some_iff, child, same_append_iff, same_delimiter_cons_iff]
  constructor
  · intro h
    obtain ⟨-, hkey, p, -, rfl, hp, q, rfl, hq⟩ := h
    refine ⟨q ++ delimiter :: rest, ⟨p, ?_, hp⟩, q, rfl, hq⟩
    rw [hkey, List.append_assoc]
    rfl
  · intro h
    obtain ⟨-, ⟨p, hkey, hp⟩, q, rfl, hq⟩ := h
    refine ⟨p ++ delimiter :: q, ?_, p, _, rfl, hp, q, rfl, hq⟩
    rw [hkey, List.append_assoc]
    rfl

theorem under_same (h : same runtime key other = true)
    (hunder : under runtime parent key = some rest) :
    ∃ rest', under runtime parent other = some rest' ∧ same runtime rest rest' = true := by
  obtain ⟨p, rfl, hp⟩ := under_eq_some_iff.mp hunder
  obtain ⟨p', q, rfl, hp', hq⟩ := same_append_iff.mp (same_symm h)
  obtain ⟨rest', rfl, hrest⟩ := same_delimiter_cons_iff.mp hq
  exact ⟨rest', under_eq_some_iff.mpr ⟨p', rfl, same_trans hp' hp⟩, same_symm hrest⟩

theorem under_parent_same (h : same runtime parent other = true)
    (hunder : under runtime parent key = some rest) : under runtime other key = some rest := by
  obtain ⟨p, rfl, hp⟩ := under_eq_some_iff.mp hunder
  exact under_eq_some_iff.mpr ⟨p, rfl, same_trans hp h⟩

theorem segment_same (h : same runtime a b = true) :
    same runtime (segment a) (segment b) = true := by
  induction a generalizing b with
  | nil =>
    obtain rfl := same_nil_iff.mp (same_symm h)
    exact same_refl _
  | cons c a ih =>
    cases b with
    | nil => exact absurd (same_nil_iff.mp h) (List.cons_ne_nil _ _)
    | cons d b =>
      obtain ⟨hcd, hab⟩ := same_cons_iff.mp h
      unfold segment
      rw [List.takeWhile_cons, List.takeWhile_cons]
      by_cases hc : c = delimiter
      · have hd : runtime.upper d = delimiter := by
          rw [← hcd, hc, upper_delimiter]
        rw [hc, upper_eq_delimiter_iff.mp hd]
        exact same_refl _
      · have hd : d ≠ delimiter := by
          intro hd
          rw [hd, upper_delimiter] at hcd
          exact hc (upper_eq_delimiter_iff.mp hcd)
        rw [if_pos (by simpa using hc), if_pos (by simpa using hd)]
        exact same_cons_iff.mpr ⟨hcd, ih hab⟩

theorem delimiter_not_mem_segment : delimiter ∉ segment rest := by
  intro h
  have hne := List.mem_takeWhile_imp h
  exact absurd rfl (bne_iff_ne.mp hne)

/-- A path is its first segment alone, or goes on below it. -/
theorem segment_cases (rest : Str) :
    rest = segment rest ∨ ∃ own, rest = segment rest ++ delimiter :: own := by
  induction rest with
  | nil => exact Or.inl rfl
  | cons c rest ih =>
    unfold segment
    rw [List.takeWhile_cons]
    by_cases hc : c = delimiter
    · subst hc
      exact Or.inr ⟨rest, rfl⟩
    · rw [if_pos (by simpa using hc)]
      rcases ih with heq | ⟨own, hown⟩
      · exact Or.inl (congrArg (c :: ·) heq)
      · exact Or.inr ⟨own, congrArg (c :: ·) hown⟩

theorem segment_append (h : delimiter ∉ a) : segment (a ++ delimiter :: b) = a := by
  unfold segment
  rw [List.takeWhile_append_of_pos]
  · rw [List.takeWhile_cons, if_neg (by simp), List.append_nil]
  · intro c hc
    exact bne_iff_ne.mpr fun heq => h (heq ▸ hc)

theorem segment_eq_self (h : delimiter ∉ a) : segment a = a := by
  unfold segment
  rw [List.takeWhile_eq_self_iff]
  intro c hc
  exact bne_iff_ne.mpr fun heq => h (heq ▸ hc)

end Under

/-! ## What the host reads -/

/-- A key that one of the providers reads from a variable. -/
def Reads (runtime : Runtime) (environment : List (Str × Str)) (key : Str) : Prop :=
  ∃ start ∈ starts, ∃ v, Loads runtime environment start key v

section Build
variable {runtime : Runtime} {environment : List (Str × Str)} {key other parent rest v : Str}
  {keys earlier : List Str} {root : Root}

theorem mem_distinct (h : key ∈ distinct runtime keys) : key ∈ keys := by
  induction keys with
  | nil => exact h
  | cons first keys ih =>
    rcases List.mem_cons.mp h with rfl | hfilter
    · exact List.mem_cons_self
    · exact List.mem_cons_of_mem _ (ih (List.mem_of_mem_filter hfilter))

theorem exists_mem_distinct (h : key ∈ keys) :
    ∃ other ∈ distinct runtime keys, same runtime other key = true := by
  induction keys with
  | nil => exact absurd h List.not_mem_nil
  | cons first keys ih =>
    by_cases hfirst : same runtime first key = true
    · exact ⟨first, List.mem_cons_self, hfirst⟩
    · rcases List.mem_cons.mp h with rfl | hrest
      · exact absurd (same_refl key) hfirst
      · obtain ⟨other, hother, hsame⟩ := ih hrest
        refine ⟨other, List.mem_cons_of_mem _ (List.mem_filter.mpr ⟨hother, ?_⟩), hsame⟩
        rw [Bool.not_eq_true']
        apply Bool.eq_false_of_not_eq_true
        intro hf
        exact hfirst (same_trans hf hsame)

theorem mem_getChildKeys_iff :
    key ∈ getChildKeys runtime root parent earlier ↔
      key ∈ earlier ∨ ∃ data ∈ root, key ∈ childKeys runtime data parent := by
  induction root generalizing earlier with
  | nil => simp [getChildKeys]
  | cons data root ih =>
    rw [getChildKeys, ih, (runtime.sort_perm _).mem_iff, List.mem_append]
    simp only [List.mem_cons, exists_eq_or_imp]
    tauto

theorem mem_build_iff {data : Data} :
    data ∈ build runtime environment ↔ ∃ start ∈ starts, load runtime start environment [] = data :=
  List.mem_map

/-- Every child that is listed was read below the parent. -/
theorem reads_of_mem_getChildren (h : key ∈ getChildren runtime (build runtime environment) parent) :
    ∃ full rest, Reads runtime environment full ∧ under runtime parent full = some rest ∧
      segment rest = key := by
  rcases mem_getChildKeys_iff.mp (mem_distinct h) with hnil | ⟨data, hdata, hkey⟩
  · exact absurd hnil List.not_mem_nil
  · obtain ⟨start, hstart, rfl⟩ := mem_build_iff.mp hdata
    obtain ⟨e, he, hrest⟩ := List.mem_filterMap.mp hkey
    obtain ⟨rest, hunder, hsegment⟩ := Option.map_eq_some_iff.mp hrest
    rcases key_mem_load he with ⟨_, hnil⟩ | ⟨v, hloads⟩
    · exact absurd hnil List.not_mem_nil
    · exact ⟨e.1, rest, ⟨start, hstart, v, hloads⟩, hunder, hsegment⟩

/-- What was read below the parent is listed, in some spelling. -/
theorem exists_mem_getChildren (h : Reads runtime environment key)
    (hunder : under runtime parent key = some rest) :
    ∃ child ∈ getChildren runtime (build runtime environment) parent,
      same runtime child (segment rest) = true := by
  obtain ⟨start, hstart, v, hloads⟩ := h
  obtain ⟨e, he, hsame⟩ : ∃ e ∈ load runtime start environment [], same runtime e.1 key = true :=
    exists_mem_load (Or.inr ⟨key, v, same_refl key, hloads⟩)
  obtain ⟨rest', hunder', hrest⟩ := under_same (same_symm hsame) hunder
  have hmem : segment rest' ∈ getChildKeys runtime (build runtime environment) parent [] := by
    apply mem_getChildKeys_iff.mpr
    refine Or.inr ⟨_, mem_build_iff.mpr ⟨start, hstart, rfl⟩, List.mem_filterMap.mpr ⟨e, he, ?_⟩⟩
    rw [hunder', Option.map_some]
  obtain ⟨child, hchild, hsegment⟩ := exists_mem_distinct hmem
  exact ⟨child, hchild, same_trans hsegment (segment_same (same_symm hrest))⟩

theorem getChildren_eq_nil_iff :
    getChildren runtime (build runtime environment) parent = [] ↔
      ∀ key, Reads runtime environment key → under runtime parent key = none := by
  rw [List.eq_nil_iff_forall_not_mem]
  constructor
  · intro h key hreads
    rw [Option.eq_none_iff_forall_not_mem]
    intro rest hunder
    obtain ⟨child, hchild, -⟩ := exists_mem_getChildren hreads hunder
    exact h child hchild
  · intro h child hchild
    obtain ⟨full, rest, hreads, hunder, -⟩ := reads_of_mem_getChildren hchild
    rw [h full hreads] at hunder
    cases hunder

theorem getChildren_parent_same (h : same runtime parent other = true) :
    getChildren runtime (build runtime environment) parent = [] ↔
      getChildren runtime (build runtime environment) other = [] := by
  rw [getChildren_eq_nil_iff, getChildren_eq_nil_iff]
  simp only [Option.eq_none_iff_forall_not_mem]
  constructor
  · intro hnone key hreads rest hunder
    exact hnone key hreads rest (under_parent_same (same_symm h) hunder)
  · intro hnone key hreads rest hunder
    exact hnone key hreads rest (under_parent_same h hunder)

theorem value_same (h : same runtime key other = true) :
    value runtime root key = value runtime root other := by
  unfold value
  congr 1
  funext data
  exact tryGet_congr h

/-- A variable read as it is goes before those of the host. -/
theorem loads_of_value (hplain : Loads runtime environment [] key v) :
    ∃ k v', value runtime (build runtime environment) key = some v' ∧
      same runtime k key = true ∧ Loads runtime environment [] k v' := by
  have hheld : (tryGet runtime (load runtime [] environment []) key).isSome = true :=
    tryGet_isSome.mpr (exists_mem_load (Or.inr ⟨key, v, same_refl key, hplain⟩))
  obtain ⟨v', hv'⟩ := Option.isSome_iff_exists.mp hheld
  obtain ⟨e, he, hsame, rfl⟩ := tryGet_eq_some hv'
  have hvalue : value runtime (build runtime environment) key = some e.2 := by
    unfold value build starts
    rw [List.map_append, List.reverse_append, List.map_cons, List.map_nil, List.reverse_singleton,
      List.singleton_append, List.findSome?_cons, hv']
  rcases mem_load he with hnil | ⟨k, hk, hloads⟩
  · exact absurd hnil List.not_mem_nil
  · exact ⟨k, e.2, hvalue, same_trans hk hsame, hloads⟩

end Build

end Decisya.Bff.Configuration
