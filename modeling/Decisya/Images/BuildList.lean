import Decisya.Graphs.Saturation
import Decisya.Text.GoVersion
import Decisya.Text.Python
import Mathlib.Data.List.Sort
import Mathlib.Data.List.Lex
import Mathlib.Data.List.Dedup
import Mathlib.Data.List.Nodup

/-!
# The Caddy build list and its overrides

`compare_buildlists` compares the modules Go selects for the Caddy build with those it selects
for Caddy alone. A module that differs has to be an override or be reached from one in the
module graph. A node of the graph is `path@version`.
-/

namespace Decisya.Images

open Python

set_option autoImplicit false

/-! ## Versions -/

/-- An exception of `vtuple`. -/
inductive VersionError where
  | notAVersion (version : Str)
  | tooManyDigits

structure VTuple where
  major : ℕ
  minor : ℕ
  patch : ℕ
  release : Bool
  suffix : Str

namespace VTuple

/-- The order of the tuples. -/
def compare (a b : VTuple) : Ordering :=
  (Ord.compare a.major b.major).then ((Ord.compare a.minor b.minor).then
    ((Ord.compare a.patch b.patch).then ((Ord.compare a.release b.release).then
      (Ord.compare a.suffix b.suffix))))

end VTuple

section Versions

-- the value of what `\d` matches
variable (decimal : Char → Option ℕ)

def isDecimal (c : Char) : Bool := (decimal c).isSome

structure VersionMatch where
  major : Str
  minor : Str
  patch : Option Str
  suffix : Str

/-- `^v?(\d+)\.(\d+)(?:\.(\d+))?(.*)$` on a text that ends in no white space. -/
def matchVersion (s : Str) : Option VersionMatch :=
  let s := if s.head? = some 'v' then s.drop 1 else s
  match s.dropWhile (isDecimal decimal) with
  | '.' :: t =>
    let after := t.dropWhile (isDecimal decimal)
    let third := (after.drop 1).takeWhile (isDecimal decimal)
    let hasThird := after.head? == some '.' && !third.isEmpty
    let suffix := if hasThird then (after.drop 1).dropWhile (isDecimal decimal) else after
    if s.takeWhile (isDecimal decimal) ≠ [] ∧ t.takeWhile (isDecimal decimal) ≠ [] ∧
        '\n' ∉ suffix then
      some
        { major := s.takeWhile (isDecimal decimal)
          minor := t.takeWhile (isDecimal decimal)
          patch := if hasThird then some third else none
          suffix := suffix }
    else none
  | _ => none

/-- The digits that `int` takes without an exception. -/
def maxIntDigits : ℕ := 4300

def toInt (digits : Str) : Except VersionError ℕ :=
  if digits.length ≤ maxIntDigits then
    .ok (digits.foldl (fun n c => 10 * n + (decimal c).getD 0) 0)
  else .error .tooManyDigits

def vtuple (version : Str) : Except VersionError VTuple :=
  match matchVersion decimal (strip version) with
  | none => .error (.notAVersion version)
  | some m => do
    let release := m.suffix.isEmpty || Python.startsWith m.suffix ['+']
    let major ← toInt decimal m.major
    let minor ← toInt decimal m.minor
    let patch ← (m.patch.map (toInt decimal)).getD (.ok 0)
    .ok ⟨major, minor, patch, release, if release then [] else m.suffix⟩

end Versions

/-! ## Build lists -/

/-- A dictionary from module paths to versions. -/
structure Modules where
  entries : List (Str × Str)
  nodup : (entries.map Prod.fst).Nodup

def Modules.get (m : Modules) (path : Str) : Option Str := m.entries.lookup path

def Modules.keys (m : Modules) : List Str := m.entries.map Prod.fst

structure BuildList where
  modules : Modules
  edges : List (Str × Str)

def node (path version : Str) : Str := path ++ '@' :: version

/-- `dst.rsplit("@", 1)[0]` -/
def pathOf (dst : Str) : Str :=
  if '@' ∈ dst then ((dst.reverse.dropWhile (· ≠ '@')).drop 1).reverse else dst

/-- `dst.rsplit("@", 1)[-1]` -/
def versionOf (dst : Str) : Str := (dst.reverse.takeWhile (· ≠ '@')).reverse

/-- A node whose version is the selected one. -/
def isSelected (ours : BuildList) (dst : Str) : Bool :=
  ours.modules.get (pathOf dst) == some (versionOf dst)

/-- The overrides at their selected versions. -/
def overrideNodes (ours : BuildList) (overrides : Modules) : List Str :=
  overrides.entries.filterMap fun o => (ours.modules.get o.1).map (node o.1)

/-- The loop, which passes over the edges until nothing grew. -/
def explained (passes : ℕ) (ours : BuildList) (overrides : Modules) : Option (List Str) :=
  Graphs.saturate (isSelected ours) ours.edges passes (overrideNodes ours overrides)

/-! ## The comparison -/

/-- `{value}` of a string or of `None`. -/
def pyText (value : Option Str) : Str := value.getD "None".toList

/-- `{value or default}` -/
def orText (value : Option Str) (default : String) : Str :=
  match value with
  | some (c :: cs) => c :: cs
  | _ => default.toList

def selectionProblem (ours : BuildList) (o : Str × Str) : Option Str :=
  if ours.modules.get o.1 = some o.2 then none
  else some ("override ".toList ++ o.1 ++ ' ' :: o.2 ++ " is not the selected version (".toList ++
    pyText (ours.modules.get o.1) ++ [')'])

def row (path upstream ours status : Str) : Str :=
  "| ".toList ++ path ++ " | ".toList ++ upstream ++ " | ".toList ++ ours ++ " | ".toList ++
    status ++ " |".toList

/-- The problems and the rows of one path. -/
def comparePath (ours upstream : BuildList) (overrides : Modules) (explained : List Str)
    (path : Str) : List Str × List Str :=
  let mine := ours.modules.get path
  let theirs := upstream.modules.get path
  if mine = theirs then ([], [])
  else
    match mine with
    | none =>
      ([path ++ " is in the upstream build list (".toList ++ pyText theirs ++
          ") but not in ours".toList],
        [row path (pyText theirs) ['-'] "missing".toList])
    | some mine =>
      if node path mine ∈ explained then
        ([], [row path (orText theirs "-") mine
          (if path ∈ overrides.keys then "override".toList else "raised by an override".toList)])
      else
        ([path ++ " differs from upstream (".toList ++ orText theirs "absent" ++ " vs ".toList ++
            mine ++ ") and is neither an annotated override nor raised by one (S-1)".toList],
          [row path (orText theirs "-") mine "UNEXPLAINED".toList])

def paths (ours upstream : BuildList) : List Str :=
  ((ours.modules.keys ++ upstream.modules.keys).dedup).insertionSort (· ≤ ·)

def header : List Str :=
  ["| module | upstream | ours | status |".toList, "| --- | --- | --- | --- |".toList]

section Compare

variable (decimal : Char → Option ℕ)

def staleProblem (ours upstream : BuildList) (o : Str × Str) : Except VersionError (List Str) :=
  match upstream.modules.get o.1, ours.modules.get o.1 with
  | some up, some mine => do
    let a ← vtuple decimal mine
    let b ← vtuple decimal up
    .ok (if a.compare b = .gt then []
      else ["override ".toList ++ o.1 ++ ' ' :: o.2 ++ " is stale: upstream ".toList ++ up ++
        " is not below it; remove the override".toList])
  | _, _ => .ok []

def staleProblems (ours upstream : BuildList) : List (Str × Str) → Except VersionError (List Str)
  | [] => .ok []
  | o :: rest => do
    let first ← staleProblem decimal ours upstream o
    let others ← staleProblems ours upstream rest
    .ok (first ++ others)

/-- The problems and the rows of the table; `none` when the passes run out. -/
def compareBuildlists (passes : ℕ) (ours upstream : BuildList) (overrides : Modules) :
    Option (Except VersionError (List Str × List Str)) := do
  let marked ← explained passes ours overrides
  let found := (paths ours upstream).map (comparePath ours upstream overrides marked)
  some do
    let stale ← staleProblems decimal ours upstream overrides.entries
    .ok (overrides.entries.filterMap (selectionProblem ours) ++ found.flatMap Prod.fst ++ stale,
      header ++ found.flatMap Prod.snd)

end Compare

/-! ## Dictionaries in another order -/

section Order

theorem Modules.get_eq_some_iff {m : Modules} {path version : Str} :
    m.get path = some version ↔ (path, version) ∈ m.entries := by
  obtain ⟨entries, hnodup⟩ := m
  unfold Modules.get
  dsimp only
  induction entries with
  | nil =>
    constructor
    · intro h
      cases h
    · intro h
      cases h
  | cons e entries ih =>
    obtain ⟨k, v⟩ := e
    rw [List.map_cons, List.nodup_cons] at hnodup
    rw [List.lookup_cons, List.mem_cons, Prod.mk.injEq, ← ih hnodup.2]
    cases hk : path == k with
    | true =>
      have heq : path = k := beq_iff_eq.mp hk
      dsimp only
      constructor
      · intro h
        exact Or.inl ⟨heq, (Option.some.inj h).symm⟩
      · rintro (⟨-, hv⟩ | hmem)
        · rw [hv]
        · have hkey : path ∈ entries.map Prod.fst :=
            List.mem_map_of_mem ((ih hnodup.2).mp hmem)
          rw [heq] at hkey
          exact absurd hkey hnodup.1
    | false =>
      have hne : path ≠ k := beq_eq_false_iff_ne.mp hk
      simp only [hne, false_and, false_or]

theorem Modules.mem_keys_iff {m : Modules} {path : Str} :
    path ∈ m.keys ↔ ∃ version, m.get path = some version := by
  unfold Modules.keys
  rw [List.mem_map]
  constructor
  · rintro ⟨⟨k, v⟩, hmem, rfl⟩
    exact ⟨v, Modules.get_eq_some_iff.mpr hmem⟩
  · rintro ⟨v, h⟩
    exact ⟨(path, v), Modules.get_eq_some_iff.mp h, rfl⟩

/-- The same dictionary in another order. -/
def Modules.Reordered (m m' : Modules) : Prop := m.entries.Perm m'.entries

theorem Modules.Reordered.get_eq {m m' : Modules} (h : m.Reordered m') (path : Str) :
    m.get path = m'.get path := by
  apply Option.ext
  intro version
  rw [Modules.get_eq_some_iff, Modules.get_eq_some_iff, List.Perm.mem_iff h]

structure BuildList.Reordered (l l' : BuildList) : Prop where
  modules : l.modules.Reordered l'.modules
  edges : l.edges.Perm l'.edges

variable {ours ours' upstream upstream' : BuildList} {overrides overrides' : Modules}
  {marked marked' : List Str} {passes passes' : ℕ} {path : Str}

theorem isSelected_congr (h : ours.Reordered ours') : isSelected ours = isSelected ours' := by
  funext dst
  unfold isSelected
  rw [h.modules.get_eq]

theorem overrideNodes_perm (h : ours.Reordered ours') (ho : overrides.Reordered overrides') :
    (overrideNodes ours overrides).Perm (overrideNodes ours' overrides') := by
  have hget : ours.modules.get = ours'.modules.get := funext h.modules.get_eq
  unfold overrideNodes
  rw [hget]
  exact List.Perm.filterMap _ ho

theorem reached_congr (h : ours.Reordered ours') (ho : overrides.Reordered overrides') {n : Str}
    (hn : Graphs.Reached (isSelected ours) ours.edges (overrideNodes ours overrides) n) :
    Graphs.Reached (isSelected ours') ours'.edges (overrideNodes ours' overrides') n := by
  rw [← isSelected_congr h]
  exact hn.mono (fun _ he => h.edges.mem_iff.mp he)
    (fun _ hs => (overrideNodes_perm h ho).mem_iff.mp hs)

theorem BuildList.Reordered.symm (h : ours.Reordered ours') : ours'.Reordered ours :=
  ⟨List.Perm.symm h.modules, h.edges.symm⟩

theorem mem_explained_congr (h : ours.Reordered ours') (ho : overrides.Reordered overrides')
    (hmarked : explained passes ours overrides = some marked)
    (hmarked' : explained passes' ours' overrides' = some marked') (n : Str) :
    n ∈ marked ↔ n ∈ marked' := by
  rw [Graphs.mem_saturate hmarked, Graphs.mem_saturate hmarked']
  exact ⟨reached_congr h ho, reached_congr h.symm (List.Perm.symm ho)⟩

theorem comparePath_congr (h : ours.Reordered ours') (hu : upstream.Reordered upstream')
    (ho : overrides.Reordered overrides') (hmarked : ∀ n, n ∈ marked ↔ n ∈ marked') :
    comparePath ours upstream overrides marked path
      = comparePath ours' upstream' overrides' marked' path := by
  have hkeys : path ∈ overrides.keys ↔ path ∈ overrides'.keys := by
    rw [Modules.mem_keys_iff, Modules.mem_keys_iff, ho.get_eq]
  unfold comparePath
  rw [h.modules.get_eq, hu.modules.get_eq]
  cases ours'.modules.get path with
  | none => rfl
  | some mine =>
    dsimp only
    rw [if_congr (hmarked (node path mine)) rfl rfl, if_congr hkeys rfl rfl]

theorem paths_congr (h : ours.Reordered ours') (hu : upstream.Reordered upstream') :
    paths ours upstream = paths ours' upstream' := by
  unfold paths
  have hkeys : (ours.modules.keys ++ upstream.modules.keys).Perm
      (ours'.modules.keys ++ upstream'.modules.keys) :=
    List.Perm.append (List.Perm.map _ h.modules) (List.Perm.map _ hu.modules)
  have hperm := ((List.perm_insertionSort (· ≤ ·) _).trans hkeys.dedup).trans
    (List.perm_insertionSort (· ≤ ·) _).symm
  exact hperm.eq_of_pairwise' (List.pairwise_insertionSort _ _) (List.pairwise_insertionSort _ _)

end Order

/-! ## The stale overrides -/

section Stale

variable {decimal : Char → Option ℕ} {ours ours' upstream upstream' : BuildList}
  {l l' : List (Str × Str)} {o : Str × Str}

/-- The problem of one override that raises no exception. -/
def staleOrNone (decimal : Char → Option ℕ) (ours upstream : BuildList) (o : Str × Str) :
    List Str :=
  (staleProblem decimal ours upstream o).toOption.getD []

theorem staleProblems_of_ok (h : ∀ o ∈ l, ∃ q, staleProblem decimal ours upstream o = .ok q) :
    staleProblems decimal ours upstream l = .ok (l.flatMap (staleOrNone decimal ours upstream)) := by
  induction l with
  | nil => rfl
  | cons o l ih =>
    obtain ⟨q, hq⟩ := h o List.mem_cons_self
    have hrest := ih fun x hx => h x (List.mem_cons_of_mem _ hx)
    rw [staleProblems, hq, hrest, List.flatMap_cons, staleOrNone, hq]
    rfl

theorem staleProblems_of_error {e : VersionError} (ho : o ∈ l)
    (he : staleProblem decimal ours upstream o = .error e) :
    ∃ e', staleProblems decimal ours upstream l = .error e' := by
  induction l with
  | nil => exact absurd ho List.not_mem_nil
  | cons x l ih =>
    rw [staleProblems]
    cases hx : staleProblem decimal ours upstream x with
    | error ex => exact ⟨ex, rfl⟩
    | ok q =>
      rcases List.mem_cons.mp ho with rfl | hmem
      · rw [hx] at he
        cases he
      · obtain ⟨e', he'⟩ := ih hmem
        rw [he']
        exact ⟨e', rfl⟩

theorem staleProblem_congr (h : ours.Reordered ours') (hu : upstream.Reordered upstream') :
    staleProblem decimal ours upstream = staleProblem decimal ours' upstream' := by
  funext o
  unfold staleProblem
  rw [h.modules.get_eq, hu.modules.get_eq]

variable (decimal) in
/-- What does not depend on an order: an exception, or the problems up to theirs. -/
theorem staleProblems_perm (h : ours.Reordered ours') (hu : upstream.Reordered upstream')
    (hl : l.Perm l') :
    (∃ e e', staleProblems decimal ours upstream l = .error e ∧
        staleProblems decimal ours' upstream' l' = .error e') ∨
      ∃ ps ps', staleProblems decimal ours upstream l = .ok ps ∧
        staleProblems decimal ours' upstream' l' = .ok ps' ∧ ps.Perm ps' := by
  have hsame : staleProblem decimal ours upstream = staleProblem decimal ours' upstream' :=
    staleProblem_congr h hu
  by_cases hok : ∀ o ∈ l, ∃ q, staleProblem decimal ours upstream o = .ok q
  · have hok' : ∀ o ∈ l', ∃ q, staleProblem decimal ours' upstream' o = .ok q := by
      intro o ho
      rw [← hsame]
      exact hok o (hl.mem_iff.mpr ho)
    refine Or.inr ⟨_, _, staleProblems_of_ok hok, staleProblems_of_ok hok', ?_⟩
    unfold staleOrNone
    rw [hsame]
    exact hl.flatMap_right _
  · push Not at hok
    obtain ⟨o, ho, hno⟩ := hok
    cases hstale : staleProblem decimal ours upstream o with
    | ok q => exact absurd hstale (hno q)
    | error e =>
      have hstale' : staleProblem decimal ours' upstream' o = .error e := by
        rw [← hsame]
        exact hstale
      obtain ⟨e₁, h₁⟩ := staleProblems_of_error ho hstale
      obtain ⟨e₂, h₂⟩ := staleProblems_of_error (hl.mem_iff.mp ho) hstale'
      exact Or.inl ⟨e₁, e₂, h₁, h₂⟩

theorem staleProblem_of_nil (h : staleProblems decimal ours upstream l = .ok []) (ho : o ∈ l) :
    staleProblem decimal ours upstream o = .ok [] := by
  induction l with
  | nil => exact absurd ho List.not_mem_nil
  | cons x l ih =>
    rw [staleProblems] at h
    cases hx : staleProblem decimal ours upstream x with
    | error e =>
      rw [hx] at h
      cases h
    | ok q =>
      cases hrest : staleProblems decimal ours upstream l with
      | error e =>
        rw [hx, hrest] at h
        cases h
      | ok qs =>
        rw [hx, hrest] at h
        have hnil : q ++ qs = [] := Except.ok.inj h
        obtain ⟨rfl, rfl⟩ := List.append_eq_nil_iff.mp hnil
        rcases List.mem_cons.mp ho with rfl | hmem
        · exact hx
        · exact ih hrest hmem

/-- An override that is not stale is above upstream in the order of `vtuple`. -/
theorem above_of_staleProblem_nil (h : staleProblem decimal ours upstream o = .ok [])
    {up mine : Str} (hup : upstream.modules.get o.1 = some up)
    (hmine : ours.modules.get o.1 = some mine) :
    ∃ a b, vtuple decimal mine = .ok a ∧ vtuple decimal up = .ok b ∧ a.compare b = .gt := by
  unfold staleProblem at h
  rw [hup, hmine] at h
  dsimp only at h
  cases ha : vtuple decimal mine with
  | error e =>
    rw [ha] at h
    cases h
  | ok a =>
    cases hb : vtuple decimal up with
    | error e =>
      rw [ha, hb] at h
      cases h
    | ok b =>
      rw [ha, hb] at h
      have hnil := Except.ok.inj h
      by_cases hgt : a.compare b = .gt
      · exact ⟨a, b, rfl, rfl, hgt⟩
      · rw [if_neg hgt] at hnil
        cases hnil

end Stale

/-! ## What no problem means -/

/-- The same result up to the order of the problems, or an exception both times. -/
def SameResult (r r' : Except VersionError (List Str × List Str)) : Prop :=
  (∃ e e', r = .error e ∧ r' = .error e') ∨
    ∃ problems problems' rows, r = .ok (problems, rows) ∧ r' = .ok (problems', rows) ∧
      problems.Perm problems'

/-- Every upstream module is in ours at a version that is not lower, and what differs is an
override or reached from one. -/
structure Explains (ours upstream : BuildList) (overrides : Modules) : Prop where
  kept : ∀ path theirs, upstream.modules.get path = some theirs →
    ∃ mine, ours.modules.get path = some mine ∧ GoVersion.compare mine theirs ≠ .lt
  changed : ∀ path mine, ours.modules.get path = some mine →
    upstream.modules.get path ≠ some mine →
      Graphs.Reached (isSelected ours) ours.edges (overrideNodes ours overrides) (node path mine)

/-- `vtuple` puts the first version above the second, and Go below. -/
def Inverted (decimal : Char → Option ℕ) (mine theirs : Str) : Prop :=
  (∃ a b, vtuple decimal mine = .ok a ∧ vtuple decimal theirs = .ok b ∧ a.compare b = .gt) ∧
    GoVersion.compare mine theirs = .lt

/-- No module that is only reached from an override is below upstream, and no override is one
that the two orders disagree about. -/
structure OnlyRaises (decimal : Char → Option ℕ) (ours upstream : BuildList)
    (overrides : Modules) : Prop where
  reached : ∀ path mine theirs, path ∉ overrides.keys → ours.modules.get path = some mine →
    upstream.modules.get path = some theirs →
      Graphs.Reached (isSelected ours) ours.edges (overrideNodes ours overrides) (node path mine) →
        GoVersion.compare mine theirs ≠ .lt
  overridden : ∀ path mine theirs, path ∈ overrides.keys → ours.modules.get path = some mine →
    upstream.modules.get path = some theirs → ¬ Inverted decimal mine theirs

section Result

variable {decimal : Char → Option ℕ} {ours ours' upstream upstream' : BuildList}
  {overrides overrides' : Modules} {marked : List Str} {passes passes' : ℕ} {path : Str}

theorem compareBuildlists_isSome (h : ours.edges.length < passes) :
    ∃ r, compareBuildlists decimal passes ours upstream overrides = some r := by
  obtain ⟨marked, hmarked⟩ : ∃ marked, Graphs.saturate (isSelected ours) ours.edges passes
      (overrideNodes ours overrides) = some marked := Graphs.saturate_of_length_lt h
  unfold compareBuildlists explained
  rw [hmarked]
  exact ⟨_, rfl⟩

theorem compareBuildlists_eq_some {r : Except VersionError (List Str × List Str)}
    (h : compareBuildlists decimal passes ours upstream overrides = some r) :
    ∃ marked, explained passes ours overrides = some marked ∧
      r = (staleProblems decimal ours upstream overrides.entries).map fun stale =>
        (overrides.entries.filterMap (selectionProblem ours) ++
            ((paths ours upstream).map (comparePath ours upstream overrides marked)).flatMap
              Prod.fst ++ stale,
          header ++ ((paths ours upstream).map (comparePath ours upstream overrides marked)).flatMap
            Prod.snd) := by
  obtain ⟨marked, hmarked, h⟩ := Option.bind_eq_some_iff.mp h
  refine ⟨marked, hmarked, ?_⟩
  rw [← Option.some.inj h]
  cases staleProblems decimal ours upstream overrides.entries with
  | error e => rfl
  | ok stale => rfl

theorem sameResult_of_reordered (h : ours.Reordered ours') (hu : upstream.Reordered upstream')
    (ho : overrides.Reordered overrides') {r r' : Except VersionError (List Str × List Str)}
    (hr : compareBuildlists decimal passes ours upstream overrides = some r)
    (hr' : compareBuildlists decimal passes' ours' upstream' overrides' = some r') :
    SameResult r r' := by
  obtain ⟨marked, hmarked, rfl⟩ := compareBuildlists_eq_some hr
  obtain ⟨marked', hmarked', rfl⟩ := compareBuildlists_eq_some hr'
  have hpath : comparePath ours upstream overrides marked
      = comparePath ours' upstream' overrides' marked' := by
    funext path
    exact comparePath_congr h hu ho (mem_explained_congr h ho hmarked hmarked')
  have hselection : selectionProblem ours = selectionProblem ours' := by
    funext o
    unfold selectionProblem
    rw [h.modules.get_eq]
  rw [hpath, hselection, paths_congr h hu]
  rcases staleProblems_perm decimal h hu ho with
    ⟨e, e', he, he'⟩ | ⟨ps, ps', hps, hps', hperm⟩
  · rw [he, he']
    exact Or.inl ⟨e, e', rfl, rfl⟩
  · rw [hps, hps']
    exact Or.inr ⟨_, _, _, rfl, rfl, ((List.Perm.filterMap _ ho).append_right _).append hperm⟩

theorem comparePath_eq_nil (h : (comparePath ours upstream overrides marked path).1 = []) :
    ours.modules.get path = upstream.modules.get path ∨
      ∃ mine, ours.modules.get path = some mine ∧ node path mine ∈ marked := by
  unfold comparePath at h
  dsimp only at h
  split at h
  · rename_i hsame
    exact Or.inl hsame
  · cases hmine : ours.modules.get path with
    | none =>
      rw [hmine] at h
      cases h
    | some mine =>
      rw [hmine] at h
      dsimp only at h
      split at h
      · rename_i hmarked
        exact Or.inr ⟨mine, rfl, hmarked⟩
      · cases h

theorem mem_paths (h : (∃ version, ours.modules.get path = some version) ∨
    ∃ version, upstream.modules.get path = some version) : path ∈ paths ours upstream := by
  unfold paths
  rw [List.mem_insertionSort, List.mem_dedup, List.mem_append, Modules.mem_keys_iff,
    Modules.mem_keys_iff]
  exact h

theorem of_no_problem {rows : List Str}
    (h : compareBuildlists decimal passes ours upstream overrides = some (.ok ([], rows))) :
    (∀ path, ours.modules.get path = upstream.modules.get path ∨
      ∃ mine, ours.modules.get path = some mine ∧ Graphs.Reached (isSelected ours) ours.edges
        (overrideNodes ours overrides) (node path mine)) ∧
    ∀ path mine theirs, path ∈ overrides.keys → ours.modules.get path = some mine →
      upstream.modules.get path = some theirs →
        ∃ a b, vtuple decimal mine = .ok a ∧ vtuple decimal theirs = .ok b ∧
          a.compare b = .gt := by
  obtain ⟨marked, hmarked, h⟩ := compareBuildlists_eq_some h
  cases hstale : staleProblems decimal ours upstream overrides.entries with
  | error e =>
    rw [hstale] at h
    cases h
  | ok stale =>
    rw [hstale] at h
    have hnil := congrArg Prod.fst (Except.ok.inj h)
    dsimp only at hnil
    obtain ⟨hfound, rfl⟩ := List.append_eq_nil_iff.mp hnil.symm
    have hpaths := (List.append_eq_nil_iff.mp hfound).2
    rw [List.flatMap_map, List.flatMap_eq_nil_iff] at hpaths
    constructor
    · intro path
      by_cases hmem : path ∈ paths ours upstream
      · rcases comparePath_eq_nil (hpaths path hmem) with hsame | ⟨mine, hmine, hin⟩
        · exact Or.inl hsame
        · exact Or.inr ⟨mine, hmine, (Graphs.mem_saturate hmarked).mp hin⟩
      · have hnone : ∀ version, ours.modules.get path ≠ some version ∧
            upstream.modules.get path ≠ some version := fun version =>
          ⟨fun hv => hmem (mem_paths (Or.inl ⟨version, hv⟩)),
            fun hv => hmem (mem_paths (Or.inr ⟨version, hv⟩))⟩
        left
        rw [Option.eq_none_iff_forall_ne_some.mpr fun v => (hnone v).1,
          Option.eq_none_iff_forall_ne_some.mpr fun v => (hnone v).2]
    · intro path mine theirs hkey hmine htheirs
      obtain ⟨o, ho, rfl⟩ := List.mem_map.mp hkey
      exact above_of_staleProblem_nil (staleProblem_of_nil hstale ho) htheirs hmine

theorem explains_iff_onlyRaises {rows : List Str}
    (h : compareBuildlists decimal passes ours upstream overrides = some (.ok ([], rows))) :
    Explains ours upstream overrides ↔ OnlyRaises decimal ours upstream overrides := by
  obtain ⟨hpaths, habove⟩ := of_no_problem h
  constructor
  · intro hexplains
    have hkept : ∀ path mine theirs, ours.modules.get path = some mine →
        upstream.modules.get path = some theirs → GoVersion.compare mine theirs ≠ .lt := by
      intro path mine theirs hmine htheirs
      obtain ⟨mine', hmine', hkept⟩ := hexplains.kept path theirs htheirs
      rw [hmine] at hmine'
      rw [Option.some.inj hmine']
      exact hkept
    exact ⟨fun path mine theirs _ hmine htheirs _ => hkept path mine theirs hmine htheirs,
      fun path mine theirs _ hmine htheirs hinv => hkept path mine theirs hmine htheirs hinv.2⟩
  · intro honly
    constructor
    · intro path theirs htheirs
      rcases hpaths path with hsame | ⟨mine, hmine, hreached⟩
      · refine ⟨theirs, hsame.trans htheirs, ?_⟩
        rw [GoVersion.compare_self]
        exact fun hlt => nomatch hlt
      · refine ⟨mine, hmine, ?_⟩
        by_cases hkey : path ∈ overrides.keys
        · have hgt := habove path mine theirs hkey hmine htheirs
          exact fun hlt => honly.overridden path mine theirs hkey hmine htheirs ⟨hgt, hlt⟩
        · exact honly.reached path mine theirs hkey hmine htheirs hreached
    · intro path mine hmine hne
      rcases hpaths path with hsame | ⟨mine', hmine', hreached⟩
      · exact absurd (hsame.symm.trans hmine) hne
      · rw [hmine] at hmine'
        rw [Option.some.inj hmine']
        exact hreached

/-- The loop ends on every graph, the result does not depend on an order, and a list without a
problem is explained exactly when its overrides only raise. -/
theorem compareBuildlists_explains_iff :
    (∀ passes, ours.edges.length < passes →
      ∃ r, compareBuildlists decimal passes ours upstream overrides = some r) ∧
    (∀ ours' upstream' overrides', ours.Reordered ours' → upstream.Reordered upstream' →
      overrides.Reordered overrides' → ∀ passes passes' r r',
        compareBuildlists decimal passes ours upstream overrides = some r →
          compareBuildlists decimal passes' ours' upstream' overrides' = some r' →
            SameResult r r') ∧
    ∀ passes rows,
      compareBuildlists decimal passes ours upstream overrides = some (.ok ([], rows)) →
        (Explains ours upstream overrides ↔ OnlyRaises decimal ours upstream overrides) :=
  ⟨fun _ h => compareBuildlists_isSome h,
    fun _ _ _ h hu ho _ _ _ _ hr hr' => sameResult_of_reordered h hu ho hr hr',
    fun _ _ h => explains_iff_onlyRaises h⟩

end Result

/-! ## An override that lowers another module -/

section Lowered

def asciiDecimal (c : Char) : Option ℕ := if c.isDigit then some (c.toNat - 48) else none

def netPath : Str := "golang.org/x/net".toList

def textPath : Str := "golang.org/x/text".toList

theorem netPath_ne_textPath : netPath ≠ textPath := by decide

def netAndText (net text : String) : Modules where
  entries := [(netPath, net.toList), (textPath, text.toList)]
  nodup := List.nodup_cons.mpr
    ⟨fun h => netPath_ne_textPath (List.mem_singleton.mp h), List.nodup_singleton _⟩

/-- The net module that the override selects asks for the text module of the argument. -/
def netOurs (text : String) : BuildList :=
  ⟨netAndText "v0.60.0" text, [(node netPath "v0.60.0".toList, node textPath text.toList)]⟩

def netUpstream : BuildList := ⟨netAndText "v0.59.0" "v0.43.0", []⟩

def netOverride : Modules := ⟨[(netPath, "v0.60.0".toList)], List.nodup_singleton _⟩

theorem no_problem_of_fst {passes : ℕ} {ours upstream : BuildList} {overrides : Modules}
    (h : (compareBuildlists asciiDecimal passes ours upstream overrides).map
      (fun r => r.toOption.map Prod.fst) = some (some [])) :
    ∃ rows, compareBuildlists asciiDecimal passes ours upstream overrides
      = some (.ok ([], rows)) := by
  obtain ⟨r, hr, hfst⟩ := Option.map_eq_some_iff.mp h
  cases r with
  | error e => cases hfst
  | ok result =>
    obtain ⟨problems, rows⟩ := result
    have hnil : problems = [] := Option.some.inj hfst
    rw [hnil] at hr
    exact ⟨rows, hr⟩

theorem mem_netAndText {net text : String} {path version : Str}
    (h : (netAndText net text).get path = some version) :
    path = netPath ∧ version = net.toList ∨ path = textPath ∧ version = text.toList := by
  have hmem := Modules.get_eq_some_iff.mp h
  rcases List.mem_cons.mp hmem with heq | hmem
  · exact Or.inl (Prod.mk.inj heq)
  · exact Or.inr (Prod.mk.inj (List.mem_singleton.mp hmem))

theorem onlyRaises_text : OnlyRaises asciiDecimal (netOurs "v0.44.0") netUpstream netOverride := by
  constructor
  · intro path mine theirs hkey hmine htheirs _
    rcases mem_netAndText hmine with ⟨rfl, -⟩ | ⟨rfl, rfl⟩
    · exact absurd (List.mem_singleton.mpr rfl) hkey
    · rcases mem_netAndText htheirs with ⟨hpath, -⟩ | ⟨-, rfl⟩
      · exact absurd hpath.symm netPath_ne_textPath
      · decide
  · intro path mine theirs hkey hmine htheirs hinv
    rw [List.mem_singleton.mp hkey] at hmine htheirs
    rcases mem_netAndText hmine with ⟨-, rfl⟩ | ⟨hpath, -⟩
    · rcases mem_netAndText htheirs with ⟨-, rfl⟩ | ⟨hpath, -⟩
      · exact absurd hinv.2 (by decide)
      · exact netPath_ne_textPath hpath
    · exact netPath_ne_textPath hpath

theorem raised_text_explained : (∃ rows, compareBuildlists asciiDecimal 2 (netOurs "v0.44.0")
      netUpstream netOverride = some (.ok ([], rows))) ∧
    Explains (netOurs "v0.44.0") netUpstream netOverride := by
  obtain ⟨rows, hrows⟩ : ∃ rows, compareBuildlists asciiDecimal 2 (netOurs "v0.44.0") netUpstream
      netOverride = some (.ok ([], rows)) := no_problem_of_fst (by decide +kernel)
  exact ⟨⟨rows, hrows⟩, (compareBuildlists_explains_iff.2.2 2 rows hrows).mpr onlyRaises_text⟩

/-- The text module goes from v0.43.0 down to v0.42.0, and no problem is reported. -/
theorem lowered_text_passes : ¬ ∀ passes rows,
    compareBuildlists asciiDecimal passes (netOurs "v0.42.0") netUpstream netOverride
      = some (.ok ([], rows)) → Explains (netOurs "v0.42.0") netUpstream netOverride := by
  intro h
  obtain ⟨rows, hrows⟩ : ∃ rows, compareBuildlists asciiDecimal 2 (netOurs "v0.42.0") netUpstream
      netOverride = some (.ok ([], rows)) := no_problem_of_fst (by decide +kernel)
  obtain ⟨mine, hmine, hkept⟩ := (h 2 rows hrows).kept textPath "v0.43.0".toList (by decide)
  have hlow : (netOurs "v0.42.0").modules.get textPath = some "v0.42.0".toList := by decide
  rw [hlow] at hmine
  rw [← Option.some.inj hmine] at hkept
  exact hkept (by decide)

end Lowered

end Decisya.Images
