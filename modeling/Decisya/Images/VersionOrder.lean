import Decisya.Images.BuildList

/-!
# The order of `vtuple` and the order of Go

On versions of three numbers `vtuple` reads the numbers and keeps the suffix as it stands. Two
pre-releases of one version are compared by the texts of their suffixes, where Go compares the
identifiers one by one and leaves the build out.
-/

namespace Decisya.Images

open Python

set_option autoImplicit false

/-- Digits without a leading zero. -/
structure IsNumeral (ds : Str) : Prop where
  nonempty : ds ≠ []
  digits : ∀ c ∈ ds, c.isDigit = true
  leading : ds.head? = some '0' → ds.length = 1

/-- A version of three numbers, with the identifiers of its pre-release and of its build. -/
structure Semver where
  major : Str
  minor : Str
  patch : Str
  prerelease : List Str
  build : List Str
  major_valid : IsNumeral major
  minor_valid : IsNumeral minor
  patch_valid : IsNumeral patch
  prerelease_valid : ∀ i ∈ prerelease, GoVersion.isIdent i = true ∧ GoVersion.isBadNum i = false
  build_valid : ∀ i ∈ build, GoVersion.isIdent i = true

namespace Semver

/-- The pre-release with its hyphen and the build with its plus sign. -/
def suffix (v : Semver) : Str :=
  (if v.prerelease = [] then [] else '-' :: join ['.'] v.prerelease) ++
    (if v.build = [] then [] else '+' :: join ['.'] v.build)

def text (v : Semver) : Str :=
  'v' :: (v.major ++ '.' :: (v.minor ++ '.' :: (v.patch ++ v.suffix)))

def version (v : Semver) : GoVersion.Version :=
  ⟨GoVersion.number v.major, GoVersion.number v.minor, GoVersion.number v.patch, v.prerelease⟩

/-- Semantic-version precedence. -/
def Precedes (v w : Semver) : Prop := v.version.compare w.version = .lt

def SameNumbers (v w : Semver) : Prop :=
  v.version.major = w.version.major ∧ v.version.minor = w.version.minor ∧
    v.version.patch = w.version.patch

/-- `int` takes each of the three numbers. -/
structure Short (v : Semver) : Prop where
  major : v.major.length ≤ maxIntDigits
  minor : v.minor.length ≤ maxIntDigits
  patch : v.patch.length ≤ maxIntDigits

end Semver

/-- What `\d` matches of the ASCII characters, with its value. -/
def AsciiDigits (decimal : Char → Option ℕ) : Prop :=
  ∀ c : Char, c.toNat < 128 → decimal c = if c.isDigit then some (c.toNat - 48) else none

/-- `vtuple` gives a tuple for both, and orders them as Go does. -/
def OrdersAsGo (decimal : Char → Option ℕ) (v w : Semver) : Prop :=
  ∃ a b, vtuple decimal v.text = .ok a ∧ vtuple decimal w.text = .ok b ∧
    (a.compare b = .lt ↔ v.Precedes w)

/-- The numbers can be read, and of two pre-releases of one version the texts of the suffixes
compare as the identifiers do. -/
structure TextOrderAgrees (v w : Semver) : Prop where
  left : v.Short
  right : w.Short
  suffix : v.SameNumbers w → v.prerelease ≠ [] → w.prerelease ≠ [] →
    (compare v.suffix w.suffix = .lt ↔
      GoVersion.compareIdents v.prerelease w.prerelease = .lt)

/-! ## The characters of a version -/

def isVersionChar (c : Char) : Bool := GoVersion.isIdentChar c || c == '.' || c == '+'

section Characters

variable {c : Char}

theorem isIdentChar_of_isDigit (h : c.isDigit = true) : GoVersion.isIdentChar c = true := by
  unfold GoVersion.isIdentChar Char.isAlphanum
  rw [h, Bool.or_true, Bool.true_or]

theorem toNat_of_isVersionChar (h : isVersionChar c = true) :
    c.toNat = 43 ∨ 45 ≤ c.toNat ∧ c.toNat ≤ 57 ∨ 65 ≤ c.toNat ∧ c.toNat ≤ 90 ∨
      97 ≤ c.toNat ∧ c.toNat ≤ 122 := by
  unfold isVersionChar GoVersion.isIdentChar at h
  simp only [Char.isAlphanum, Char.isAlpha, Char.isUpper, Char.isLower, Char.isDigit,
    Bool.or_eq_true, Bool.and_eq_true, decide_eq_true_eq, beq_iff_eq, UInt32.le_iff_toNat_le,
    ge_iff_le] at h
  have hval : c.val.toNat = c.toNat := rfl
  have h1 : 'A'.val.toNat = 65 := rfl
  have h2 : 'Z'.val.toNat = 90 := rfl
  have h3 : 'a'.val.toNat = 97 := rfl
  have h4 : 'z'.val.toNat = 122 := rfl
  have h5 : '0'.val.toNat = 48 := rfl
  have h6 : '9'.val.toNat = 57 := rfl
  rcases h with (((h | h) | rfl) | rfl) | rfl
  · omega
  · omega
  · decide
  · decide
  · decide

theorem not_isSpace_of_isVersionChar (h : isVersionChar c = true) : isSpace c = false := by
  have hc := toNat_of_isVersionChar h
  unfold isSpace
  simp only [Bool.or_eq_false_iff, Bool.and_eq_false_iff, decide_eq_false_iff_not,
    beq_eq_false_iff_ne]
  omega

theorem isVersionChar_join {idents : List Str}
    (h : ∀ i ∈ idents, GoVersion.isIdent i = true) (hc : c ∈ join ['.'] idents) :
    isVersionChar c = true := by
  induction idents with
  | nil => cases hc
  | cons i idents ih =>
    have hident : ∀ d ∈ i, isVersionChar d = true := by
      intro d hd
      have hi := h i List.mem_cons_self
      unfold GoVersion.isIdent at hi
      rw [Bool.and_eq_true] at hi
      unfold isVersionChar
      rw [List.all_eq_true.mp hi.2 d hd, Bool.true_or, Bool.true_or]
    cases idents with
    | nil =>
      have hsingle : join ['.'] [i] = i := List.intercalate_singleton
      rw [hsingle] at hc
      exact hident c hc
    | cons j idents =>
      have hmore : join ['.'] (i :: j :: idents) = i ++ ['.'] ++ join ['.'] (j :: idents) := by
        unfold join
        rw [List.intercalate_cons_cons]
      rw [hmore, List.mem_append, List.mem_append] at hc
      rcases hc with (hc | hc) | hc
      · exact hident c hc
      · rw [List.mem_singleton.mp hc]
        decide
      · exact ih (fun k hk => h k (List.mem_cons_of_mem i hk)) hc

theorem isVersionChar_suffix {v : Semver} (hc : c ∈ v.suffix) : isVersionChar c = true := by
  unfold Semver.suffix at hc
  rcases List.mem_append.mp hc with hc | hc
  · split at hc
    · cases hc
    · rcases List.mem_cons.mp hc with rfl | hc
      · decide
      · exact isVersionChar_join (fun i hi => (v.prerelease_valid i hi).1) hc
  · split at hc
    · cases hc
    · rcases List.mem_cons.mp hc with rfl | hc
      · decide
      · exact isVersionChar_join v.build_valid hc

theorem isVersionChar_text {v : Semver} (hc : c ∈ v.text) : isVersionChar c = true := by
  have hnumeral : ∀ ds, IsNumeral ds → c ∈ ds → isVersionChar c = true := by
    intro ds hds hin
    unfold isVersionChar
    rw [isIdentChar_of_isDigit (hds.digits c hin), Bool.true_or, Bool.true_or]
  unfold Semver.text at hc
  simp only [List.mem_cons, List.mem_append] at hc
  rcases hc with rfl | hc | rfl | hc | rfl | hc | hc
  · decide
  · exact hnumeral _ v.major_valid hc
  · decide
  · exact hnumeral _ v.minor_valid hc
  · decide
  · exact hnumeral _ v.patch_valid hc
  · exact isVersionChar_suffix hc

end Characters

/-! ## What `vtuple` reads -/

section Read

variable {decimal : Char → Option ℕ} {v : Semver}

theorem isDecimal_of_ascii (hd : AsciiDigits decimal) {c : Char} (hc : c.toNat < 128) :
    isDecimal decimal c = c.isDigit := by
  unfold isDecimal
  rw [hd c hc]
  cases c.isDigit <;> rfl

theorem isDecimal_of_isDigit (hd : AsciiDigits decimal) {c : Char} (hc : c.isDigit = true) :
    isDecimal decimal c = true := by
  have hchar : isVersionChar c = true := by
    unfold isVersionChar
    rw [isIdentChar_of_isDigit hc, Bool.true_or, Bool.true_or]
  have hlt := toNat_of_isVersionChar hchar
  rw [isDecimal_of_ascii hd (by omega)]
  exact hc

/-- The digits of a numeral end where no digit follows. -/
theorem takeWhile_numeral (hd : AsciiDigits decimal) {ds rest : Str} (hds : IsNumeral ds)
    (hrest : ∀ c ∈ rest.head?, isDecimal decimal c = false) :
    (ds ++ rest).takeWhile (isDecimal decimal) = ds ∧
      (ds ++ rest).dropWhile (isDecimal decimal) = rest := by
  have hall : ∀ c ∈ ds, isDecimal decimal c = true := fun c hc =>
    isDecimal_of_isDigit hd (hds.digits c hc)
  rw [List.takeWhile_append_of_pos hall, List.dropWhile_append_of_pos hall]
  cases rest with
  | nil => exact ⟨List.append_nil ds, rfl⟩
  | cons c rest =>
    have hc := hrest c rfl
    constructor
    · rw [List.takeWhile_cons_of_neg (by rw [hc]; exact Bool.false_ne_true), List.append_nil]
    · rw [List.dropWhile_cons_of_neg (by rw [hc]; exact Bool.false_ne_true)]

theorem head?_suffix {c : Char} (hc : c ∈ v.suffix.head?) : c = '-' ∨ c = '+' := by
  unfold Semver.suffix at hc
  split at hc
  · split at hc
    · cases hc
    · right
      exact (Option.some.inj hc).symm
  · left
    exact (Option.some.inj hc).symm

theorem matchVersion_text (hd : AsciiDigits decimal) : matchVersion decimal v.text =
    some ⟨v.major, v.minor, some v.patch, v.suffix⟩ := by
  have hdot : ∀ rest : Str, ∀ c ∈ ('.' :: rest).head?, isDecimal decimal c = false := by
    intro rest c hc
    rw [← Option.some.inj hc, isDecimal_of_ascii hd (by decide)]
    decide
  have hsuffix : ∀ c ∈ v.suffix.head?, isDecimal decimal c = false := by
    intro c hc
    rcases head?_suffix hc with rfl | rfl
    · rw [isDecimal_of_ascii hd (by decide)]
      decide
    · rw [isDecimal_of_ascii hd (by decide)]
      decide
  obtain ⟨hmajor, hafterMajor⟩ := takeWhile_numeral hd v.major_valid
    (hdot (v.minor ++ '.' :: (v.patch ++ v.suffix)))
  obtain ⟨hminor, hafterMinor⟩ := takeWhile_numeral hd v.minor_valid (hdot (v.patch ++ v.suffix))
  obtain ⟨hpatch, hafterPatch⟩ := takeWhile_numeral hd v.patch_valid hsuffix
  have hline : '\n' ∉ v.suffix := by
    intro hin
    exact absurd (isVersionChar_suffix hin) (by decide)
  have hnonempty : v.patch.isEmpty = false := by
    rw [List.isEmpty_eq_false_iff]
    exact v.patch_valid.nonempty
  unfold matchVersion Semver.text
  rw [List.head?_cons, if_pos rfl, List.drop_one, List.tail_cons]
  dsimp only
  rw [hafterMajor]
  simp only [hafterMinor, hminor, hmajor, List.drop_one, List.tail_cons, hpatch, hafterPatch,
    List.head?_cons, hnonempty, beq_self_eq_true, Bool.not_false, Bool.and_true, if_true]
  rw [if_pos ⟨v.major_valid.nonempty, v.minor_valid.nonempty, hline⟩]

theorem strip_text : strip v.text = v.text :=
  Text.trim_eq_self fun _ hc => not_isSpace_of_isVersionChar (isVersionChar_text hc)

theorem foldl_decimal (hd : AsciiDigits decimal) {ds : Str} (hds : ∀ c ∈ ds, c.isDigit = true)
    (n : ℕ) : ds.foldl (fun n c => 10 * n + (decimal c).getD 0) n
      = ds.foldl (fun n c => 10 * n + (c.toNat - 48)) n := by
  induction ds generalizing n with
  | nil => rfl
  | cons c ds ih =>
    have hc := hds c List.mem_cons_self
    have hchar : isVersionChar c = true := by
      unfold isVersionChar
      rw [isIdentChar_of_isDigit hc, Bool.true_or, Bool.true_or]
    have hlt := toNat_of_isVersionChar hchar
    have hvalue : decimal c = some (c.toNat - 48) := by
      rw [hd c (by omega), if_pos hc]
    rw [List.foldl_cons, List.foldl_cons, hvalue, Option.getD_some]
    exact ih (fun d hdc => hds d (List.mem_cons_of_mem c hdc)) _

theorem toInt_numeral (hd : AsciiDigits decimal) {ds : Str} (hds : IsNumeral ds) :
    toInt decimal ds = if ds.length ≤ maxIntDigits then .ok (GoVersion.number ds)
      else .error .tooManyDigits := by
  unfold toInt GoVersion.number
  rw [foldl_decimal hd hds.digits]

/-- The tuple of a version whose numbers can be read. -/
def tupleOf (v : Semver) : VTuple :=
  ⟨v.version.major, v.version.minor, v.version.patch, decide (v.prerelease = []),
    if v.prerelease = [] then [] else v.suffix⟩

theorem release_suffix (v : Semver) :
    (v.suffix.isEmpty || Python.startsWith v.suffix ['+']) = decide (v.prerelease = []) := by
  unfold Semver.suffix
  by_cases hpre : v.prerelease = []
  · rw [if_pos hpre, List.nil_append, decide_eq_true hpre]
    split
    · rfl
    · rfl
  · rw [if_neg hpre, decide_eq_false hpre]
    rfl

theorem vtuple_text (hd : AsciiDigits decimal) (a : VTuple) :
    vtuple decimal v.text = .ok a ↔ v.Short ∧ a = tupleOf v := by
  unfold vtuple
  rw [strip_text, matchVersion_text hd]
  dsimp only
  rw [release_suffix, Option.map_some, Option.getD_some, toInt_numeral hd v.major_valid,
    toInt_numeral hd v.minor_valid, toInt_numeral hd v.patch_valid]
  by_cases hmajor : v.major.length ≤ maxIntDigits
  · by_cases hminor : v.minor.length ≤ maxIntDigits
    · by_cases hpatch : v.patch.length ≤ maxIntDigits
      · rw [if_pos hmajor, if_pos hminor, if_pos hpatch]
        constructor
        · intro h
          refine ⟨⟨hmajor, hminor, hpatch⟩, ?_⟩
          rw [← Except.ok.inj h]
          unfold tupleOf Semver.version
          simp only [decide_eq_true_eq]
        · rintro ⟨-, rfl⟩
          unfold tupleOf Semver.version
          simp only [decide_eq_true_eq]
          rfl
      · rw [if_pos hmajor, if_pos hminor, if_neg hpatch]
        exact iff_of_false (fun h => nomatch h) fun h => hpatch h.1.patch
    · rw [if_pos hmajor, if_neg hminor]
      exact iff_of_false (fun h => nomatch h) fun h => hminor h.1.minor
  · rw [if_neg hmajor]
    exact iff_of_false (fun h => nomatch h) fun h => hmajor h.1.major

end Read

/-! ## The two orders -/

section Orders

variable {decimal : Char → Option ℕ} {v w : Semver}

/-- Two orders that refine one differ only where it does not decide. -/
theorem then_iff (o s t : Ordering) :
    (o.then s = .lt ↔ o.then t = .lt) ↔ (o = .eq → (s = .lt ↔ t = .lt)) := by
  cases o with
  | lt => simp [Ordering.then]
  | eq => simp [Ordering.then]
  | gt => simp [Ordering.then]

/-- The order of the three numbers. -/
def compareNumbers (v w : Semver) : Ordering :=
  (compare v.version.major w.version.major).then ((compare v.version.minor w.version.minor).then
    (compare v.version.patch w.version.patch))

theorem compareNumbers_eq_eq : compareNumbers v w = .eq ↔ v.SameNumbers w := by
  unfold compareNumbers Semver.SameNumbers
  rw [Ordering.then_eq_eq, Ordering.then_eq_eq, Nat.compare_eq_eq, Nat.compare_eq_eq,
    Nat.compare_eq_eq]

theorem compare_version : v.version.compare w.version
    = (compareNumbers v w).then (GoVersion.comparePrerelease v.prerelease w.prerelease) := by
  unfold GoVersion.Version.compare compareNumbers
  rw [Ordering.then_assoc, Ordering.then_assoc]
  rfl

theorem compare_tupleOf : (tupleOf v).compare (tupleOf w) = (compareNumbers v w).then
    ((compare (decide (v.prerelease = [])) (decide (w.prerelease = []))).then
      (compare (if v.prerelease = [] then [] else v.suffix)
        (if w.prerelease = [] then [] else w.suffix))) := by
  unfold VTuple.compare compareNumbers tupleOf
  rw [Ordering.then_assoc, Ordering.then_assoc]

/-- Where one of the two is a release the tuples order them as Go does. -/
theorem suffix_iff :
    ((compare (decide (v.prerelease = [])) (decide (w.prerelease = []))).then
      (compare (if v.prerelease = [] then [] else v.suffix)
        (if w.prerelease = [] then [] else w.suffix)) = .lt ↔
      GoVersion.comparePrerelease v.prerelease w.prerelease = .lt) ↔
    (v.prerelease ≠ [] → w.prerelease ≠ [] → (compare v.suffix w.suffix = .lt ↔
      GoVersion.compareIdents v.prerelease w.prerelease = .lt)) := by
  cases hv : v.prerelease with
  | nil =>
    cases hw : w.prerelease with
    | nil =>
      simp only [if_true, decide_true]
      exact iff_of_true (by decide) fun h => absurd rfl h
    | cons j js =>
      simp only [if_true, List.cons_ne_nil, if_false, decide_true, decide_false]
      exact iff_of_true (iff_of_false (fun h => nomatch h) fun h => nomatch h)
        fun h => absurd rfl h
  | cons i is =>
    cases hw : w.prerelease with
    | nil =>
      simp only [if_true, List.cons_ne_nil, if_false, decide_true, decide_false]
      exact iff_of_true (iff_of_true rfl rfl) fun _ h => absurd rfl h
    | cons j js =>
      simp only [List.cons_ne_nil, if_false, decide_false, ne_eq, not_false_eq_true, true_imp_iff]
      exact Iff.rfl

end Orders

/-! ## Two release candidates -/

section Candidates

theorem asciiDigits_asciiDecimal : AsciiDigits asciiDecimal := fun _ _ => rfl

theorem isNumeral_of_bool {ds : Str} (h : (!ds.isEmpty && ds.all Char.isDigit &&
    (ds.head? != some '0' || ds.length == 1)) = true) : IsNumeral ds := by
  simp only [Bool.and_eq_true, Bool.or_eq_true, Bool.not_eq_true', List.isEmpty_eq_false_iff,
    List.all_eq_true, bne_iff_ne, beq_iff_eq] at h
  exact ⟨h.1.1, h.1.2, fun hzero => h.2.resolve_left fun hne => hne hzero⟩

theorem isNumeral_one : IsNumeral ['1'] := isNumeral_of_bool (by decide)

theorem isNumeral_zero : IsNumeral ['0'] := isNumeral_of_bool (by decide)

/-- `v1.0.0-rc.` and a number. -/
def candidate (n : Str) (h : GoVersion.isIdent n = true ∧ GoVersion.isBadNum n = false) :
    Semver where
  major := ['1']
  minor := ['0']
  patch := ['0']
  prerelease := ["rc".toList, n]
  build := []
  major_valid := isNumeral_one
  minor_valid := isNumeral_zero
  patch_valid := isNumeral_zero
  prerelease_valid := by
    intro i hi
    rcases List.mem_cons.mp hi with rfl | hi
    · exact ⟨rfl, rfl⟩
    · rw [List.mem_singleton.mp hi]
      exact h
  build_valid := fun _ h => nomatch h

theorem ident_nine : GoVersion.isIdent ['9'] = true ∧ GoVersion.isBadNum ['9'] = false := by decide

theorem ident_ten :
    GoVersion.isIdent ['1', '0'] = true ∧ GoVersion.isBadNum ['1', '0'] = false := by decide

theorem ident_eight : GoVersion.isIdent ['8'] = true ∧ GoVersion.isBadNum ['8'] = false := by decide

end Candidates

end Decisya.Images
