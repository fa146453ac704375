import Decisya.Text.Json
import Decisya.Text.Python
import Decisya.Text.Split

/-!
# Forwarding headers

The guard that reads every handler of an adapted document for changes of the headers that tell
the client's address, next to what the edge does with a handler's header operations.
-/

namespace Decisya.Edge

open Python

set_option autoImplicit false

/-! ## Every dictionary of a document -/

mutual

/-- `_iter_dicts` -/
def iterDicts : Json → List Json
  | .obj fields => .obj fields :: iterFields fields
  | .arr items => iterItems items
  | .null | .bool _ | .num _ | .str _ => []

def iterItems : List Json → List Json
  | [] => []
  | item :: items => iterDicts item ++ iterItems items

def iterFields : List (Str × Json) → List Json
  | [] => []
  | (_, value) :: fields => iterDicts value ++ iterFields fields

end

/-! ## The guard -/

inductive Operation where
  | set
  | add
  | replace
  | require
  | delete
  deriving DecidableEq

def Operation.text : Operation → Str
  | set => "set".toList
  | add => "add".toList
  | replace => "replace".toList
  | require => "require".toList
  | delete => "delete".toList

abbrev HeaderOp := Operation × Str

/-- The value under a key, of a dictionary only. -/
def member (node : Json) (key : Str) : Option Json :=
  match node with
  | .obj fields => Json.lookup fields key
  | _ => none

def keysOf : Option Json → List Str
  | some (.obj fields) => fields.map Prod.fst
  | _ => []

def itemsOf : Option Json → List Json
  | some (.arr items) => items
  | _ => []

section Guard

-- `str` of a value that is no string
variable (pyStr : Json → Str)

def strOf : Json → Str
  | .str s => s
  | other => pyStr other

def dictOps (options : Json) (operation : Operation) : List HeaderOp :=
  (keysOf (member options operation.text)).map fun name => (operation, name)

/-- `_header_ops` -/
def headerOps (options : Json) : List HeaderOp :=
  [.set, .add, .replace, .require].flatMap (dictOps options) ++
    (itemsOf (member options Operation.delete.text)).map fun item => (.delete, strOf pyStr item)

/-- What `[a-z0-9-]` matches when case is ignored. -/
def isNameChar (c : Char) : Bool :=
  ('a' ≤ c && c ≤ 'z') || ('A' ≤ c && c ≤ 'Z') || ('0' ≤ c && c ≤ '9') || c == '-' ||
    c.toNat == 0x130 || c.toNat == 0x131 || c.toNat == 0x17f || c.toNat == 0x212a

def lowerAscii (s : Str) : Str := s.map Char.toLower

def forwarded : Str := "forwarded".toList

def xForwarded : Str := "x-forwarded-".toList

/-- The text before the end that `$` matches at: the end itself, or a line feed there. -/
def beforeEnd (s : Str) : List Str := if s.getLast? = some '\n' then [s, s.dropLast] else [s]

/-- What may follow `x-forwarded-` for the guard to see it. -/
def isNameTail (s : Str) : Bool := (beforeEnd s).any fun t => !t.isEmpty && t.all isNameChar

/-- `_FORWARDING_NAME_RE` -/
def forwardingNameRe (name : Str) : Bool :=
  (xForwarded.isPrefixOf (lowerAscii name) && isNameTail (name.drop xForwarded.length)) ||
    (beforeEnd name).any fun t => lowerAscii t == forwarded

def stripSigns (name : Str) : Str := name.dropWhile fun c => c == '+' || c == '-' || c == '?'

def reverseProxy : Str := "reverse_proxy".toList

def headersHandler : Str := "headers".toList

/-- The header operations on requests in a handler's own place for them; nothing for a node that
is no handler of the two kinds, and no answer where the guard raises an exception. -/
def requestOptions (node : Json) : Option (Option (Str × Option Json)) :=
  let handler := member node "handler".toList
  if handler.any (Json.isStr · reverseProxy) then do
    let options ← (Json.orElse (member node "headers".toList) (.obj [])).get "request"
    some (some (reverseProxy, options))
  else if handler.any (Json.isStr · headersHandler) then
    some (some (headersHandler, member node "request".toList))
  else some none

def forwardingProblem (handler : Str) (op : HeaderOp) : Str :=
  "a ".toList ++ handler ++ " handler changes the request header ".toList ++ op.2 ++ " (".toList ++
    op.1.text ++ "): the client address must come from Caddy alone".toList

def nodeProblems (node : Json) : Option (List Str) := do
  match ← requestOptions node with
  | none => some []
  | some (handler, options) =>
    let ops := (options.map (headerOps pyStr)).getD []
    some ((ops.filter fun op => forwardingNameRe (stripSigns op.2)).map (forwardingProblem handler))

/-- `caddy_forwarding_problems` -/
def caddyForwardingProblems (adapted : Json) : Option (List Str) :=
  ((iterDicts adapted).mapM (nodeProblems pyStr)).map List.flatten

end Guard

/-! ## The edge -/

def isForwarding (name : Str) : Bool :=
  lowerAscii name == forwarded || xForwarded.isPrefixOf (lowerAscii name)

/-- Whether the name of a deletion stands for a header; both in lower case. -/
def deletes (name header : Str) : Bool :=
  let starts := name.head? == some '*'
  let ends := name.getLast? == some '*'
  if name = ['*'] then true
  else if starts && ends then decide (name.tail.dropLast <:+: header)
  else if starts then name.tail.isSuffixOf header
  else if ends then name.dropLast.isPrefixOf header
  else header == name

/-- The headers of a request that an operation sets, adds, replaces or deletes. -/
def changed (headers : List Str) : HeaderOp → List Str
  | (.set, name) | (.add, name) => [name]
  | (.replace, name) => headers.filter fun h => name == ['*'] || lowerAscii h == lowerAscii name
  | (.delete, name) => headers.filter fun h => deletes (lowerAscii name) (lowerAscii h)
  | (.require, _) => []

/-- What the edge reads: names of deletions are strings. -/
def edgeOps (options : Json) : List HeaderOp :=
  [.set, .add, .replace].flatMap (dictOps options) ++
    ((itemsOf (member options Operation.delete.text)).filterMap Json.asStr).map fun name =>
      (.delete, name)

/-- The operations on requests of the handler that a node is. -/
def nodeOps (node : Json) : List HeaderOp :=
  match requestOptions node with
  | some (some (_, some options)) => edgeOps options
  | _ => []

def documentOps (adapted : Json) : List HeaderOp := (iterDicts adapted).flatMap nodeOps

/-- No handler changes a forwarding header of any request. -/
def ProtectsAddress (adapted : Json) : Prop :=
  ∀ op ∈ documentOps adapted, ∀ headers, ∀ h ∈ changed headers op, isForwarding h = false

/-! ## Names the guard does not see -/

/-- Starts like a forwarding header, and what follows is empty or has another character than
letters, digits and hyphens. -/
def oddTail (name : Str) : Bool :=
  xForwarded.isPrefixOf (lowerAscii name) && !isNameTail (name.drop xForwarded.length)

/-- Some forwarding header starts with it. -/
def startsForwarding (start : Str) : Bool :=
  start.isPrefixOf forwarded || start.isPrefixOf xForwarded || xForwarded.isPrefixOf start

/-- A name of a deletion, in lower case, that stands for other names. -/
def widePattern (name : Str) : Bool :=
  name.head? == some '*' || (name.getLast? == some '*' && startsForwarding name.dropLast)

def isPattern (name : Str) : Bool := name.head? == some '*' || name.getLast? == some '*'

def unseen : HeaderOp → Bool
  | (.set, name) | (.add, name) => oddTail name
  | (.replace, name) => name == ['*'] || oddTail name
  | (.delete, name) =>
    if isPattern (lowerAscii name) then widePattern (lowerAscii name) else oddTail name
  | (.require, _) => false

section Names
variable {name h : Str}

theorem isForwarding_congr (heq : lowerAscii h = lowerAscii name) :
    isForwarding h = isForwarding name := by
  unfold isForwarding
  rw [heq]

theorem lowerAscii_lowerAscii (s : Str) : lowerAscii (lowerAscii s) = lowerAscii s := by
  unfold lowerAscii
  rw [List.map_map]
  apply List.map_congr_left
  intro c _
  exact Char.toLower_toLower_eq_toLower c

/-- A name that does not start with a sign. -/
theorem stripSigns_eq {c : Char} (hname : (lowerAscii name).head? = some c)
    (hc : c ≠ '+' ∧ c ≠ '-' ∧ c ≠ '?') : stripSigns name = name := by
  cases name with
  | nil => rfl
  | cons d rest =>
    have hd : d.toLower = c := Option.some.inj hname
    have hnot : (d == '+' || d == '-' || d == '?') = false := by
      rw [Bool.or_eq_false_iff, Bool.or_eq_false_iff, beq_eq_false_iff_ne, beq_eq_false_iff_ne,
        beq_eq_false_iff_ne]
      refine ⟨⟨?_, ?_⟩, ?_⟩
      · rintro rfl
        exact hc.1 hd.symm
      · rintro rfl
        exact hc.2.1 hd.symm
      · rintro rfl
        exact hc.2.2 hd.symm
    unfold stripSigns
    rw [List.dropWhile_cons, hnot]
    rfl

/-- Of the forwarding headers the guard lets through those with an odd tail. -/
theorem isForwarding_of_unmatched (hname : forwardingNameRe (stripSigns name) = false) :
    isForwarding name = oddTail name := by
  unfold isForwarding oddTail
  by_cases hforwarded : lowerAscii name = forwarded
  · rw [stripSigns_eq (by rw [hforwarded]; rfl) (by decide)] at hname
    unfold forwardingNameRe at hname
    rw [Bool.or_eq_false_iff] at hname
    have hany := List.any_eq_false.mp hname.2 name (by unfold beforeEnd; split <;> simp)
    rw [hforwarded] at hany
    exact absurd rfl hany
  · rw [beq_eq_false_iff_ne.mpr hforwarded, Bool.false_or]
    cases hstart : xForwarded.isPrefixOf (lowerAscii name) with
    | false => rfl
    | true =>
      obtain ⟨tail, htail⟩ := List.isPrefixOf_iff_prefix.mp hstart
      rw [stripSigns_eq (by rw [← htail]; rfl) (by decide)] at hname
      unfold forwardingNameRe at hname
      rw [hstart, Bool.true_and, Bool.or_eq_false_iff] at hname
      rw [hname.1]
      rfl

/-! ## Deletions -/

theorem isForwarding_iff : isForwarding h = true ↔
    lowerAscii h = forwarded ∨ xForwarded <+: lowerAscii h := by
  unfold isForwarding
  rw [Bool.or_eq_true, beq_iff_eq, List.isPrefixOf_iff_prefix]

/-- A forwarding header with any ending. -/
theorem isForwarding_append (tail : Str) : isForwarding (xForwarded ++ tail) = true := by
  rw [isForwarding_iff]
  right
  unfold lowerAscii
  rw [List.map_append]
  exact List.prefix_append _ _

/-- A pattern that starts with `*` stands for a forwarding header, whatever follows. -/
theorem deletes_of_head {name : Str} (hlower : lowerAscii name = name)
    (hhead : name.head? = some '*') : ∃ h, deletes name (lowerAscii h) = true ∧
      isForwarding h = true := by
  obtain ⟨core, rfl⟩ := List.head?_eq_some_iff.mp hhead
  have hcore : lowerAscii core = core := (List.cons.inj hlower).2
  have hfixed : lowerAscii xForwarded = xForwarded := by decide
  refine ⟨xForwarded ++ core, ?_, isForwarding_append core⟩
  have hlowered : lowerAscii (xForwarded ++ core) = xForwarded ++ core := by
    unfold lowerAscii at hcore hfixed ⊢
    rw [List.map_append, hcore, hfixed]
  rw [hlowered]
  unfold deletes
  dsimp only
  split
  · rfl
  · rw [hhead, beq_self_eq_true, Bool.true_and]
    split
    · rw [decide_eq_true_iff]
      exact (List.dropLast_prefix core).isInfix.trans (List.suffix_append xForwarded core).isInfix
    · rw [if_pos rfl, List.isSuffixOf_iff_suffix]
      exact List.suffix_append xForwarded core

/-- A pattern with its `*` at the end only. -/
theorem deletes_of_last {name header : Str} (hhead : name.head? ≠ some '*')
    (hlast : name.getLast? = some '*') :
    deletes name header = true ↔ name.dropLast <+: header := by
  have hne : name ≠ ['*'] := by
    rintro rfl
    exact hhead rfl
  unfold deletes
  dsimp only
  rw [if_neg hne, beq_eq_false_iff_ne.mpr hhead, Bool.false_and, if_neg Bool.false_ne_true,
    if_neg Bool.false_ne_true, hlast, beq_self_eq_true, if_pos rfl, List.isPrefixOf_iff_prefix]

theorem deletes_of_plain {name header : Str} (h : isPattern name = false) :
    deletes name header = true ↔ header = name := by
  unfold isPattern at h
  rw [Bool.or_eq_false_iff] at h
  have hne : name ≠ ['*'] := by
    rintro rfl
    cases h.1
  unfold deletes
  dsimp only
  rw [if_neg hne, h.1, h.2, Bool.false_and, if_neg Bool.false_ne_true, if_neg Bool.false_ne_true,
    if_neg Bool.false_ne_true, beq_iff_eq]

theorem exists_startsForwarding_iff {start : Str} (hlower : lowerAscii start = start) :
    (∃ h, start <+: lowerAscii h ∧ isForwarding h = true) ↔ startsForwarding start = true := by
  unfold startsForwarding
  rw [Bool.or_eq_true, Bool.or_eq_true, List.isPrefixOf_iff_prefix, List.isPrefixOf_iff_prefix,
    List.isPrefixOf_iff_prefix]
  constructor
  · rintro ⟨h, hstart, hforwarding⟩
    rcases isForwarding_iff.mp hforwarding with heq | hprefix
    · rw [heq] at hstart
      exact Or.inl (Or.inl hstart)
    · rcases List.prefix_or_prefix_of_prefix hstart hprefix with hle | hge
      · exact Or.inl (Or.inr hle)
      · exact Or.inr hge
  · rintro ((hle | hle) | hge)
    · exact ⟨forwarded, hle, by decide⟩
    · exact ⟨xForwarded, hle, by decide⟩
    · refine ⟨start, by rw [hlower], isForwarding_iff.mpr (Or.inr ?_)⟩
      rw [hlower]
      exact hge

theorem exists_deletes_iff (hpattern : isPattern (lowerAscii name) = true) :
    (∃ h, deletes (lowerAscii name) (lowerAscii h) = true ∧ isForwarding h = true) ↔
      widePattern (lowerAscii name) = true := by
  have hlower := lowerAscii_lowerAscii name
  generalize lowerAscii name = pattern at *
  unfold widePattern
  by_cases hhead : pattern.head? = some '*'
  · refine iff_of_true (deletes_of_head hlower hhead) ?_
    rw [hhead, beq_self_eq_true, Bool.true_or]
  · have hlast : pattern.getLast? = some '*' := by
      unfold isPattern at hpattern
      rw [beq_eq_false_iff_ne.mpr hhead, Bool.false_or, beq_iff_eq] at hpattern
      exact hpattern
    have hcore : lowerAscii pattern.dropLast = pattern.dropLast := by
      unfold lowerAscii at hlower ⊢
      rw [List.map_dropLast, hlower]
    rw [beq_eq_false_iff_ne.mpr hhead, Bool.false_or, hlast, beq_self_eq_true, Bool.true_and,
      ← exists_startsForwarding_iff hcore]
    simp only [deletes_of_last hhead hlast]

/-! ## One operation -/

/-- The operation changes no forwarding header of any request. -/
def Harmless (op : HeaderOp) : Prop := ∀ headers, ∀ h ∈ changed headers op, isForwarding h = false

theorem harmless_filter_iff {test : Str → Bool} :
    (∀ headers : List Str, ∀ h ∈ headers.filter test, isForwarding h = false) ↔
      ¬ ∃ h, test h = true ∧ isForwarding h = true := by
  constructor
  · rintro hall ⟨h, htest, hforwarding⟩
    have hmem : h ∈ [h].filter test := List.mem_filter.mpr ⟨List.mem_singleton_self h, htest⟩
    rw [hall [h] h hmem] at hforwarding
    cases hforwarding
  · intro hnone headers h hmem
    rw [← Bool.not_eq_true]
    exact fun hforwarding => hnone ⟨h, (List.mem_filter.mp hmem).2, hforwarding⟩

theorem exists_same_iff (hname : forwardingNameRe (stripSigns name) = false) :
    (∃ h, lowerAscii h = lowerAscii name ∧ isForwarding h = true) ↔ oddTail name = true := by
  rw [← isForwarding_of_unmatched hname]
  constructor
  · rintro ⟨h, hsame, hforwarding⟩
    rw [← isForwarding_congr hsame]
    exact hforwarding
  · exact fun hforwarding => ⟨name, rfl, hforwarding⟩

/-- An operation that the guard lets through is harmless unless it is one the guard cannot see. -/
theorem harmless_iff {op : HeaderOp} (hname : forwardingNameRe (stripSigns op.2) = false) :
    Harmless op ↔ unseen op = false := by
  obtain ⟨operation, name⟩ := op
  have hsingle : (∀ _ : List Str, ∀ h ∈ [name], isForwarding h = false) ↔ oddTail name = false := by
    rw [← isForwarding_of_unmatched hname]
    constructor
    · exact fun hall => hall [] name (List.mem_singleton_self name)
    · intro hforwarding _ h hmem
      rw [List.mem_singleton.mp hmem]
      exact hforwarding
  unfold Harmless
  cases operation with
  | set => exact hsingle
  | add => exact hsingle
  | require => exact iff_of_true (fun _ h hmem => absurd hmem List.not_mem_nil) rfl
  | replace =>
    change (∀ headers : List Str, ∀ h ∈ headers.filter _, isForwarding h = false) ↔
      (name == ['*'] || oddTail name) = false
    rw [harmless_filter_iff, ← Bool.not_eq_true, not_iff_not, Bool.or_eq_true, beq_iff_eq]
    by_cases hstar : name = ['*']
    · refine iff_of_true ⟨forwarded, ?_, by decide⟩ (Or.inl hstar)
      rw [hstar]
      rfl
    · rw [or_iff_right hstar, ← exists_same_iff hname]
      simp only [Bool.or_eq_true, beq_iff_eq, or_iff_right hstar]
  | delete =>
    change (∀ headers : List Str, ∀ h ∈ headers.filter _, isForwarding h = false) ↔
      (if isPattern (lowerAscii name) then widePattern (lowerAscii name) else oddTail name) = false
    rw [harmless_filter_iff, ← Bool.not_eq_true, not_iff_not]
    split
    · rename_i hpattern
      exact exists_deletes_iff hpattern
    · rename_i hpattern
      simp only [deletes_of_plain (Bool.not_eq_true _ ▸ hpattern)]
      exact exists_same_iff hname

end Names

/-! ## Documents -/

section Documents
variable {pyStr : Json → Str} {adapted : Json}

theorem edgeOps_subset {options : Json} {op : HeaderOp} (h : op ∈ edgeOps options) :
    op ∈ headerOps pyStr options := by
  unfold edgeOps at h
  unfold headerOps
  rcases List.mem_append.mp h with hdict | hdelete
  · apply List.mem_append_left
    obtain ⟨operation, hoperation, hmem⟩ := List.mem_flatMap.mp hdict
    refine List.mem_flatMap.mpr ⟨operation, ?_, hmem⟩
    simp only [List.mem_cons, List.not_mem_nil, or_false] at hoperation ⊢
    rcases hoperation with rfl | rfl | rfl
    · exact Or.inl rfl
    · exact Or.inr (Or.inl rfl)
    · exact Or.inr (Or.inr (Or.inl rfl))
  · apply List.mem_append_right
    obtain ⟨name, hname, rfl⟩ := List.mem_map.mp hdelete
    obtain ⟨item, hitem, hstr⟩ := List.mem_filterMap.mp hname
    refine List.mem_map.mpr ⟨item, hitem, ?_⟩
    cases item with
    | str s =>
      cases hstr
      rfl
    | null => cases hstr
    | bool b => cases hstr
    | num q => cases hstr
    | arr items => cases hstr
    | obj fields => cases hstr

theorem exists_of_mapM {α β : Type} {f : α → Option β} {xs : List α} {ys : List β}
    (h : xs.mapM f = some ys) {x : α} (hx : x ∈ xs) : ∃ y ∈ ys, f x = some y := by
  induction xs generalizing ys with
  | nil => cases hx
  | cons first rest ih =>
    simp only [List.mapM_cons, Option.bind_eq_bind, Option.bind_eq_some_iff, Option.pure_def,
      Option.some.injEq] at h
    obtain ⟨y, hy, tail, htail, rfl⟩ := h
    rcases List.mem_cons.mp hx with rfl | hx
    · exact ⟨y, List.mem_cons_self, hy⟩
    · obtain ⟨z, hz, hfz⟩ := ih htail hx
      exact ⟨z, List.mem_cons_of_mem y hz, hfz⟩

/-- An accepted document has no problem at any node. -/
theorem nodeProblems_of_accepted (h : caddyForwardingProblems pyStr adapted = some [])
    {node : Json} (hnode : node ∈ iterDicts adapted) : nodeProblems pyStr node = some [] := by
  unfold caddyForwardingProblems at h
  obtain ⟨lists, hlists, hflat⟩ := Option.map_eq_some_iff.mp h
  obtain ⟨problems, hmem, hproblems⟩ := exists_of_mapM hlists hnode
  rw [hproblems, List.flatten_eq_nil_iff.mp hflat problems hmem]

/-- The guard looked at every operation that the edge carries out. -/
theorem unmatched_of_accepted (h : caddyForwardingProblems pyStr adapted = some []) {op : HeaderOp}
    (hop : op ∈ documentOps adapted) : forwardingNameRe (stripSigns op.2) = false := by
  obtain ⟨node, hnode, hmem⟩ := List.mem_flatMap.mp hop
  have hproblems := nodeProblems_of_accepted h hnode
  unfold nodeOps at hmem
  unfold nodeProblems at hproblems
  cases hoptions : requestOptions node with
  | none =>
    rw [hoptions] at hmem
    cases hmem
  | some place =>
    rw [hoptions] at hmem hproblems
    cases place with
    | none => cases hmem
    | some place =>
      obtain ⟨handler, options⟩ := place
      cases options with
      | none => cases hmem
      | some options =>
        have hfilter : ((headerOps pyStr options).filter fun op =>
            forwardingNameRe (stripSigns op.2)) = [] :=
          List.map_eq_nil_iff.mp (Option.some.inj hproblems)
        have hop' := List.filter_eq_nil_iff.mp hfilter op (edgeOps_subset hmem)
        exact Bool.not_eq_true _ ▸ hop'

/-- What a document that the guard accepts protects. -/
theorem forwarding_guard_iff (h : caddyForwardingProblems pyStr adapted = some []) :
    ProtectsAddress adapted ↔ ∀ op ∈ documentOps adapted, unseen op = false := by
  constructor
  · exact fun hprotects op hop => (harmless_iff (unmatched_of_accepted h hop)).mp (hprotects op hop)
  · exact fun hseen op hop => (harmless_iff (unmatched_of_accepted h hop)).mpr (hseen op hop)

end Documents

/-! ## A document that the guard accepts -/

/-- A site that deletes `X-Forwarded-*` from every request. -/
def deletingSample : Json :=
  .obj [("handle".toList, .arr [.obj [("handler".toList, .str headersHandler),
    ("request".toList, .obj [("delete".toList, .arr [.str "X-Forwarded-*".toList])])]])]

theorem forwarding_guard_not_sound : ¬ ∀ pyStr adapted,
    caddyForwardingProblems pyStr adapted = some [] → ProtectsAddress adapted := by
  intro hall
  have hprotects := hall (fun _ => []) deletingSample rfl
  have hmem : (Operation.delete, "X-Forwarded-*".toList) ∈ documentOps deletingSample :=
    List.mem_singleton_self _
  have hforwarding := hprotects _ hmem ["X-Forwarded-For".toList] "X-Forwarded-For".toList (by decide)
  exact absurd hforwarding (by decide)

/-- A site that sets a header of another name. -/
def settingSample : Json :=
  .obj [("handle".toList, .arr [.obj [("handler".toList, .str headersHandler),
    ("request".toList, .obj [("set".toList, .obj [("X-Site".toList, .arr [])])])]])]

theorem forwarding_guard_iff_sample : ProtectsAddress settingSample ↔
    ∀ op ∈ documentOps settingSample, unseen op = false :=
  @forwarding_guard_iff (fun _ => []) settingSample rfl

end Decisya.Edge
