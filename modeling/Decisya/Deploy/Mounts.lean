import Decisya.Computation.TickOff
import Decisya.Text.Json
import Decisya.Text.Python
import Mathlib.Data.List.Sort
import Mathlib.Order.Lex

/-!
# What the containers see of the host

The guard over the mounts of a Compose configuration. Each mount of a service takes its entry out of
the service's table, so that one that is mounted twice is as much a problem as one that is missing.
-/

namespace Decisya.Deploy.Mounts

open Python TickOff

set_option autoImplicit false

/-! ## The tables -/

/-- Target by source. -/
abbrev Table := List (Str × Str)

def importDir : Str := "/opt/keycloak/data/import".toList

def bindMounts : List (Str × Table) :=
  [("postgres".toList, [("./config/postgres/init".toList, "/docker-entrypoint-initdb.d".toList)]),
    ("redis".toList, [("./config/redis/redis.conf".toList, "/usr/local/etc/redis/redis.conf".toList)]),
    ("keycloak".toList,
      [("./config/keycloak/entrypoint-stack.sh".toList, "/opt/decisya/entrypoint-stack.sh".toList),
        ("./config/keycloak/realm-decisya.json".toList, importDir ++ "/realm-decisya.json".toList),
        ("./config/keycloak/common-passwords.txt".toList,
          "/opt/keycloak/data/password-blacklists/common-passwords.txt".toList)]),
    ("caddy".toList, [("./config/caddy/Caddyfile".toList, "/etc/caddy/Caddyfile".toList)]),
    ("otel-collector".toList,
      [("./config/otel-collector/config.yaml".toList, "/etc/otelcol/config.yaml".toList)])]

def namedVolumes : List (Str × Table) :=
  [("postgres".toList, [("postgres-data".toList, "/var/lib/postgresql".toList)]),
    ("caddy".toList, [("caddy-data".toList, "/data".toList)]),
    ("bff".toList, [("bff-keyring".toList, "/home/app/keyring".toList)])]

def caddyRoot : Str := "caddy-root".toList

def configConsumers : List (Str × List Str) :=
  [("bff".toList, [caddyRoot]), ("api".toList, [caddyRoot]), ("keycloak".toList, [caddyRoot])]

def caddyRootTarget : Str := "/etc/decisya/trust/caddy-root.crt".toList

def caddyRootFile : Str := "./trust/caddy-root.crt".toList

/-- `tables.get(name, {})` -/
def ofService {α : Type} (tables : List (Str × List α)) (name : Str) : List α :=
  (entry tables name).getD []

/-! ## The guard -/

/-- `_list` -/
def asList : Option Json → List Json
  | none => []
  | some .null => []
  | some (.arr items) => items
  | some x => [x]

/-- `x is True` -/
def isTrue : Option Json → Bool
  | some (.bool true) => true
  | _ => false

def namesSocket (text : Str) : Bool := decide ("docker.sock".toList <:+: text)

def say (name : Str) (text : Str) : Str := "service ".toList ++ name ++ ": ".toList ++ text

/-- What is still to be met, and the problems so far. -/
structure Wanted where
  binds : Table
  volumes : Table
  problems : List Str

def Wanted.complain (w : Wanted) (problem : Str) : Wanted :=
  { w with problems := w.problems ++ [problem] }

def checkBind (name : Str) (w : Wanted) (source target : Str) (readOnly : Bool) : Wanted :=
  if entry w.binds source ≠ some target then
    w.complain (say name "bind mount of an unlisted path or target".toList)
  else
    let met := { w with binds := without w.binds source }
    if readOnly = false then
      met.complain (say name ("bind mount ".toList ++ source ++ " must be read-only".toList))
    else met

def checkNamed (name : Str) (w : Wanted) (source target : Str) (readOnly : Bool) : Wanted :=
  if entry w.volumes source ≠ some target then
    w.complain (say name ("named volume ".toList ++ source ++ " is not allowed here".toList))
  else
    let met := { w with volumes := without w.volumes source }
    if readOnly = true then
      met.complain (say name ("volume ".toList ++ source ++ " must be read-write".toList))
    else met

section Guard

-- `str` of a value, and of a sorted list of strings
variable (pyStr : Json → Str) (listStr : List Str → Str)

/-- `str(item.get(key, ""))` -/
def textOf (x : Option Json) : Str := (x.map pyStr).getD []

def checkVolume (name : Str) (w : Wanted) (item : Json) : Wanted :=
  match item with
  | .obj fields =>
    let kind := Json.lookup fields "type".toList
    let source := textOf pyStr (Json.lookup fields "source".toList)
    let target := textOf pyStr (Json.lookup fields "target".toList)
    let readOnly := isTrue (Json.lookup fields "read_only".toList)
    if (namesSocket source || namesSocket target) = true then
      w.complain (say name "the Docker socket is mounted".toList)
    else if kind.any (Json.isStr · "bind".toList) = true then checkBind name w source target readOnly
    else if kind.any (Json.isStr · "volume".toList) = true then
      checkNamed name w source target readOnly
    else if kind.any (Json.isStr · "tmpfs".toList) = true then w
    else
      w.complain (say name ("mount type ".toList ++ pyStr (kind.getD .null) ++
        " is not allowed".toList))
  | _ => w.complain (say name "a volume uses the short syntax (use the long syntax)".toList)

def leftOver (name : Str) (w : Wanted) : List Str :=
  w.binds.map (fun e => say name ("expected bind mount ".toList ++ e.1 ++ " is missing".toList)) ++
    w.volumes.map fun e => say name ("expected volume ".toList ++ e.1 ++ " is missing".toList)

def volumeProblems (name : Str) (items : List Json) : List Str :=
  let w := items.foldl (checkVolume pyStr name)
    ⟨ofService bindMounts name, ofService namedVolumes name, []⟩
  w.problems ++ leftOver name w

def tmpfsProblems (name : Str) (items : List Json) : List Str :=
  (items.filter fun item => namesSocket (pyStr item)).map fun _ =>
    say name "tmpfs names the Docker socket".toList

/-- Source and target of an entry; a value of another type has no `get`. -/
def configEntry : Json → Option (Str × Str)
  | .str s => some (s, caddyRootTarget)
  | .obj fields => some (textOf pyStr (Json.lookup fields "source".toList),
      textOf pyStr (Json.lookup fields "target".toList))
  | _ => none

def sorted (texts : List Str) : List Str := texts.dedup.insertionSort (· ≤ ·)

/-- The texts are the same set. -/
def sameSet (xs ys : List Str) : Bool := xs.all ys.contains && ys.all xs.contains

def configProblems (name : Str) (entries : List (Str × Str)) : List Str :=
  let got := entries.map Prod.fst
  let wanted := ofService configConsumers name
  ((entries.filter fun e => decide (e.2 ≠ caddyRootTarget)).map fun e =>
      say name ("config ".toList ++ e.1 ++ " is mounted at an unexpected target".toList)) ++
    if sameSet got wanted = true then []
    else [say name ("configs are ".toList ++ listStr (sorted got) ++ ", expected ".toList ++
      listStr (sorted wanted))]

/-- `none` where the guard raises an exception. -/
def serviceMountProblems (name : Str) (service : Json) : Option (List Str) := do
  let volumes ← service.get "volumes"
  let tmpfs ← service.get "tmpfs"
  let configs ← service.get "configs"
  let entries ← (asList configs).mapM (configEntry pyStr)
  some (volumeProblems pyStr name (asList volumes) ++ tmpfsProblems pyStr name (asList tmpfs) ++
    configProblems listStr name entries)

def isConfigKey (key : Str) : Bool := key == "file".toList || key == "name".toList

def topConfigProblem (config : Str × Json) : Option (List Str) :=
  match Json.orElse (some config.2) (.obj []) with
  | .obj fields =>
    if (Json.lookup fields "file".toList).any (Json.isStr · caddyRootFile) = true ∧
        (fields.all fun f => isConfigKey f.1) = true then some []
    else some ["config ".toList ++ config.1 ++ " must be the file ./trust/caddy-root.crt".toList]
  | _ => none

def topConfigProblems (cfg : Json) : Option (List Str) := do
  match ← cfg.getDict "configs" with
  | .obj configs =>
    let each ← configs.mapM topConfigProblem
    some ((if sameSet (configs.map Prod.fst) [caddyRoot] = true then []
      else ["top-level configs must be exactly caddy-root".toList]) ++ each.flatten)
  | _ => none

/-- `_mount_problems` -/
def mountProblems (cfg : Json) (services : List (Str × Json)) : Option (List Str) := do
  let each ← services.mapM fun s => serviceMountProblems pyStr listStr s.1 s.2
  let top ← topConfigProblems cfg
  some (each.flatten ++ top)

/-! ## What is accepted -/

inductive Mount where
  | bind (source target : Str) (readOnly : Bool)
  | named (source target : Str) (readOnly : Bool)
  | tmpfs

namespace Mount

def bind? : Mount → Option (Str × Str)
  | bind source target _ => some (source, target)
  | _ => none

def named? : Mount → Option (Str × Str)
  | named source target _ => some (source, target)
  | _ => none

/-- A path of the host is read only, a volume is written. -/
def rightWay : Mount → Bool
  | bind _ _ readOnly => readOnly
  | named _ _ readOnly => !readOnly
  | tmpfs => true

end Mount

/-- An entry in the long form that is no Docker socket. -/
def mountOf (item : Json) : Option Mount :=
  match item with
  | .obj fields =>
    let kind := Json.lookup fields "type".toList
    let source := textOf pyStr (Json.lookup fields "source".toList)
    let target := textOf pyStr (Json.lookup fields "target".toList)
    let readOnly := isTrue (Json.lookup fields "read_only".toList)
    if (namesSocket source || namesSocket target) = true then none
    else if kind.any (Json.isStr · "bind".toList) = true then some (.bind source target readOnly)
    else if kind.any (Json.isStr · "volume".toList) = true then some (.named source target readOnly)
    else if kind.any (Json.isStr · "tmpfs".toList) = true then some .tmpfs
    else none
  | _ => none

/-- The mounts are those of the two tables, each met once, and each the right way. -/
structure Exact (binds volumes : Table) (mounts : List Mount) : Prop where
  rightWay : ∀ m ∈ mounts, m.rightWay = true
  binds : (mounts.filterMap Mount.bind?).Perm binds
  volumes : (mounts.filterMap Mount.named?).Perm volumes

structure ServiceMounts (name : Str) (service : Json) : Prop where
  volumes : ∃ items mounts, service.get "volumes" = some items ∧
    (asList items).mapM (mountOf pyStr) = some mounts ∧
    Exact (ofService bindMounts name) (ofService namedVolumes name) mounts
  tmpfs : ∃ items, service.get "tmpfs" = some items ∧
    ∀ item ∈ asList items, namesSocket (pyStr item) = false
  configs : ∃ items entries, service.get "configs" = some items ∧
    (asList items).mapM (configEntry pyStr) = some entries ∧ (∀ e ∈ entries, e.2 = caddyRootTarget) ∧
    ∀ text, text ∈ entries.map Prod.fst ↔ text ∈ ofService configConsumers name

variable {pyStr listStr} {name : Str} {w : Wanted}

/-! ## The loop over the mounts -/

def apply (name : Str) (w : Wanted) : Mount → Wanted
  | .bind source target readOnly => checkBind name w source target readOnly
  | .named source target readOnly => checkNamed name w source target readOnly
  | .tmpfs => w

theorem complain_problems (w : Wanted) (problem : Str) : (w.complain problem).problems ≠ [] := by
  simp [Wanted.complain]

theorem checkVolume_of_some {item : Json} {m : Mount} (h : mountOf pyStr item = some m) :
    checkVolume pyStr name w item = apply name w m := by
  unfold mountOf at h
  unfold checkVolume
  cases item with
  | obj fields =>
    dsimp only at h ⊢
    split at h
    · cases h
    · rename_i hsocket
      rw [if_neg hsocket]
      split at h
      · rename_i hbind
        cases h
        rw [if_pos hbind]
        rfl
      · rename_i hbind
        rw [if_neg hbind]
        split at h
        · rename_i hvolume
          cases h
          rw [if_pos hvolume]
          rfl
        · rename_i hvolume
          rw [if_neg hvolume]
          split at h
          · rename_i htmpfs
            cases h
            rw [if_pos htmpfs]
            rfl
          · cases h
  | _ => cases h

theorem checkVolume_of_none {item : Json} (h : mountOf pyStr item = none) :
    (checkVolume pyStr name w item).problems ≠ [] := by
  unfold mountOf at h
  unfold checkVolume
  cases item with
  | obj fields =>
    dsimp only at h ⊢
    split at h
    · rename_i hsocket
      rw [if_pos hsocket]
      exact complain_problems _ _
    · rename_i hsocket
      rw [if_neg hsocket]
      split at h
      · cases h
      · rename_i hbind
        rw [if_neg hbind]
        split at h
        · cases h
        · rename_i hvolume
          rw [if_neg hvolume]
          split at h
          · cases h
          · rename_i htmpfs
            rw [if_neg htmpfs]
            exact complain_problems _ _
  | _ => exact complain_problems _ _

theorem checkBind_problems {source target : Str} {readOnly : Bool} (h : w.problems ≠ []) :
    (checkBind name w source target readOnly).problems ≠ [] := by
  unfold checkBind
  split
  · exact complain_problems _ _
  · dsimp only
    split
    · exact complain_problems _ _
    · exact h

theorem checkNamed_problems {source target : Str} {readOnly : Bool} (h : w.problems ≠ []) :
    (checkNamed name w source target readOnly).problems ≠ [] := by
  unfold checkNamed
  split
  · exact complain_problems _ _
  · dsimp only
    split
    · exact complain_problems _ _
    · exact h

/-- A problem stays one. -/
theorem foldl_problems {items : List Json} (h : w.problems ≠ []) :
    (items.foldl (checkVolume pyStr name) w).problems ≠ [] := by
  induction items generalizing w with
  | nil => exact h
  | cons item rest ih =>
    apply ih
    cases hmount : mountOf pyStr item with
    | none => exact checkVolume_of_none hmount
    | some m =>
      rw [checkVolume_of_some hmount]
      cases m with
      | bind source target readOnly => exact checkBind_problems h
      | named source target readOnly => exact checkNamed_problems h
      | tmpfs => exact h

/-- Nothing is said and nothing is left. -/
def Settled (w : Wanted) : Prop := w.problems = [] ∧ w.binds = [] ∧ w.volumes = []

theorem not_settled {items : List Json} (h : w.problems ≠ []) :
    ¬ Settled (items.foldl (checkVolume pyStr name) w) := fun hsettled => foldl_problems h hsettled.1

theorem exact_bind {volumes : Table} {binds : Table} (hbinds : Keyed binds) {source target : Str}
    {readOnly : Bool} {mounts : List Mount} :
    Exact binds volumes (.bind source target readOnly :: mounts) ↔
      entry binds source = some target ∧ readOnly = true ∧
        Exact (without binds source) volumes mounts := by
  have hperm : ((source, target) :: mounts.filterMap Mount.bind?).Perm binds ↔
      entry binds source = some target ∧
        (mounts.filterMap Mount.bind?).Perm (without binds source) := cons_perm_iff hbinds
  constructor
  · rintro ⟨hright, hb, hv⟩
    obtain ⟨hentry, hrest⟩ := hperm.mp hb
    exact ⟨hentry, hright _ List.mem_cons_self,
      fun m hm => hright m (List.mem_cons_of_mem _ hm), hrest, hv⟩
  · rintro ⟨hentry, hreadOnly, hright, hb, hv⟩
    refine ⟨fun m hm => ?_, hperm.mpr ⟨hentry, hb⟩, hv⟩
    rcases List.mem_cons.mp hm with rfl | hm
    · exact hreadOnly
    · exact hright m hm

theorem exact_named {volumes : Table} {binds : Table} (hvolumes : Keyed volumes)
    {source target : Str} {readOnly : Bool} {mounts : List Mount} :
    Exact binds volumes (.named source target readOnly :: mounts) ↔
      entry volumes source = some target ∧ readOnly = false ∧
        Exact binds (without volumes source) mounts := by
  have hperm : ((source, target) :: mounts.filterMap Mount.named?).Perm volumes ↔
      entry volumes source = some target ∧
        (mounts.filterMap Mount.named?).Perm (without volumes source) := cons_perm_iff hvolumes
  constructor
  · rintro ⟨hright, hb, hv⟩
    obtain ⟨hentry, hrest⟩ := hperm.mp hv
    have hwritten : (!readOnly) = true := hright _ List.mem_cons_self
    exact ⟨hentry, by simpa using hwritten, fun m hm => hright m (List.mem_cons_of_mem _ hm), hb,
      hrest⟩
  · rintro ⟨hentry, rfl, hright, hb, hv⟩
    refine ⟨fun m hm => ?_, hb, hperm.mpr ⟨hentry, hv⟩⟩
    rcases List.mem_cons.mp hm with rfl | hm
    · rfl
    · exact hright m hm

theorem exact_tmpfs {volumes binds : Table} {mounts : List Mount} :
    Exact binds volumes (.tmpfs :: mounts) ↔ Exact binds volumes mounts := by
  constructor
  · rintro ⟨hright, hb, hv⟩
    exact ⟨fun m hm => hright m (List.mem_cons_of_mem _ hm), hb, hv⟩
  · rintro ⟨hright, hb, hv⟩
    refine ⟨fun m hm => ?_, hb, hv⟩
    rcases List.mem_cons.mp hm with rfl | hm
    · rfl
    · exact hright m hm

/-- The loop ends without a word and with empty tables exactly on the mounts of the tables. -/
theorem foldl_settled_iff {items : List Json} (hbinds : Keyed w.binds) (hvolumes : Keyed w.volumes)
    (hquiet : w.problems = []) : Settled (items.foldl (checkVolume pyStr name) w) ↔
      ∃ mounts, items.mapM (mountOf pyStr) = some mounts ∧ Exact w.binds w.volumes mounts := by
  induction items generalizing w with
  | nil =>
    constructor
    · rintro ⟨-, hb, hv⟩
      refine ⟨[], rfl, fun m hm => absurd hm List.not_mem_nil, ?_, ?_⟩
      · rw [show w.binds = [] from hb]
        exact .nil
      · rw [show w.volumes = [] from hv]
        exact .nil
    · rintro ⟨mounts, hmounts, -, hb, hv⟩
      cases hmounts
      exact ⟨hquiet, hb.symm.eq_nil, hv.symm.eq_nil⟩
  | cons item rest ih =>
    rw [List.foldl_cons]
    cases hmount : mountOf pyStr item with
    | none =>
      constructor
      · intro hsettled
        exact absurd hsettled (not_settled (checkVolume_of_none hmount))
      · rintro ⟨mounts, hmounts, -⟩
        rw [List.mapM_cons, hmount] at hmounts
        cases hmounts
    | some m =>
      rw [checkVolume_of_some hmount]
      have hcons : (∃ mounts, (item :: rest).mapM (mountOf pyStr) = some mounts ∧
          Exact w.binds w.volumes mounts) ↔
          ∃ mounts, rest.mapM (mountOf pyStr) = some mounts ∧
            Exact w.binds w.volumes (m :: mounts) := by
        rw [List.mapM_cons, hmount]
        cases rest.mapM (mountOf pyStr) with
        | none => simp
        | some mounts => simp
      rw [hcons]
      cases m with
      | bind source target readOnly =>
        simp only [apply, checkBind, exact_bind hbinds]
        by_cases hentry : entry w.binds source = some target
        · rw [if_neg (not_not_intro hentry)]
          cases readOnly with
          | false =>
            constructor
            · intro hsettled
              exact absurd hsettled (not_settled (complain_problems _ _))
            · rintro ⟨mounts, -, -, h, -⟩
              cases h
          | true =>
            have hnext := ih (w := { w with binds := without w.binds source })
              (hbinds.without source) hvolumes hquiet
            simpa [hentry] using hnext
        · rw [if_pos hentry]
          constructor
          · intro hsettled
            exact absurd hsettled (not_settled (complain_problems _ _))
          · rintro ⟨mounts, -, h, -⟩
            exact absurd h hentry
      | named source target readOnly =>
        simp only [apply, checkNamed, exact_named hvolumes]
        by_cases hentry : entry w.volumes source = some target
        · rw [if_neg (not_not_intro hentry)]
          cases readOnly with
          | true =>
            constructor
            · intro hsettled
              exact absurd hsettled (not_settled (complain_problems _ _))
            · rintro ⟨mounts, -, -, h, -⟩
              cases h
          | false =>
            have hnext := ih (w := { w with volumes := without w.volumes source })
              hbinds (hvolumes.without source) hquiet
            simpa [hentry] using hnext
        · rw [if_pos hentry]
          constructor
          · intro hsettled
            exact absurd hsettled (not_settled (complain_problems _ _))
          · rintro ⟨mounts, -, h, -⟩
            exact absurd h hentry
      | tmpfs =>
        simp only [apply, exact_tmpfs]
        exact ih hbinds hvolumes hquiet

theorem volumeProblems_eq_nil_iff {items : List Json} :
    volumeProblems pyStr name items = [] ↔
      ∃ mounts, items.mapM (mountOf pyStr) = some mounts ∧
        Exact (ofService bindMounts name) (ofService namedVolumes name) mounts := by
  have hkeyed : ∀ tables : List (Str × Table), (∀ t ∈ tables, Keyed t.2) →
      Keyed (ofService tables name) := by
    intro tables htables
    unfold ofService
    cases hentry : entry tables name with
    | none => exact List.nodup_nil
    | some table => exact htables (name, table) (mem_of_entry hentry)
  have hbinds : Keyed (ofService bindMounts name) := hkeyed _ (by unfold Keyed; decide)
  have hvolumes : Keyed (ofService namedVolumes name) := hkeyed _ (by unfold Keyed; decide)
  have hsettled : Settled (items.foldl (checkVolume pyStr name)
      ⟨ofService bindMounts name, ofService namedVolumes name, []⟩) ↔
      ∃ mounts, items.mapM (mountOf pyStr) = some mounts ∧
        Exact (ofService bindMounts name) (ofService namedVolumes name) mounts :=
    foldl_settled_iff hbinds hvolumes rfl
  rw [← hsettled]
  simp [volumeProblems, leftOver, Settled]

/-! ## The guard accepts exactly the tables -/

theorem sameSet_iff {xs ys : List Str} : sameSet xs ys = true ↔ ∀ text, text ∈ xs ↔ text ∈ ys := by
  simp only [sameSet, Bool.and_eq_true, List.all_eq_true, List.contains_iff_mem]
  constructor
  · rintro ⟨hxs, hys⟩ text
    exact ⟨hxs text, hys text⟩
  · intro h
    exact ⟨fun text => (h text).mp, fun text => (h text).mpr⟩

theorem tmpfsProblems_eq_nil_iff {items : List Json} :
    tmpfsProblems pyStr name items = [] ↔ ∀ item ∈ items, namesSocket (pyStr item) = false := by
  simp [tmpfsProblems]

theorem configProblems_eq_nil_iff {entries : List (Str × Str)} :
    configProblems listStr name entries = [] ↔ (∀ e ∈ entries, e.2 = caddyRootTarget) ∧
      ∀ text, text ∈ entries.map Prod.fst ↔ text ∈ ofService configConsumers name := by
  rw [← sameSet_iff]
  unfold configProblems
  rw [List.append_eq_nil_iff, List.map_eq_nil_iff, List.filter_eq_nil_iff]
  by_cases hset : sameSet (entries.map Prod.fst) (ofService configConsumers name) = true
  · simp [hset]
  · simp [hset]

theorem serviceMountProblems_eq_nil_iff {service : Json} :
    serviceMountProblems pyStr listStr name service = some [] ↔ ServiceMounts pyStr name service := by
  unfold serviceMountProblems
  constructor
  · intro h
    obtain ⟨volumes, hvolumes, h⟩ := Option.bind_eq_some_iff.mp h
    obtain ⟨tmpfs, htmpfs, h⟩ := Option.bind_eq_some_iff.mp h
    obtain ⟨configs, hconfigs, h⟩ := Option.bind_eq_some_iff.mp h
    obtain ⟨entries, hentries, h⟩ := Option.bind_eq_some_iff.mp h
    replace h := Option.some.inj h
    rw [List.append_eq_nil_iff, List.append_eq_nil_iff] at h
    obtain ⟨⟨hv, ht⟩, hc⟩ := h
    obtain ⟨mounts, hmounts, hexact⟩ := volumeProblems_eq_nil_iff.mp hv
    exact ⟨⟨volumes, mounts, hvolumes, hmounts, hexact⟩,
      ⟨tmpfs, htmpfs, tmpfsProblems_eq_nil_iff.mp ht⟩,
      ⟨configs, entries, hconfigs, hentries, configProblems_eq_nil_iff.mp hc⟩⟩
  · rintro ⟨⟨volumes, mounts, hvolumes, hmounts, hexact⟩, ⟨tmpfs, htmpfs, hsockets⟩,
      ⟨configs, entries, hconfigs, hentries, hset⟩⟩
    have hv : volumeProblems pyStr name (asList volumes) = [] :=
      volumeProblems_eq_nil_iff.mpr ⟨mounts, hmounts, hexact⟩
    have ht : tmpfsProblems pyStr name (asList tmpfs) = [] := tmpfsProblems_eq_nil_iff.mpr hsockets
    have hc : configProblems listStr name entries = [] := configProblems_eq_nil_iff.mpr hset
    rw [hvolumes, htmpfs, hconfigs]
    simp [hentries, hv, ht, hc]

theorem mem_of_mapM {α β : Type} {f : α → Option β} {xs : List α} {ys : List β}
    (h : xs.mapM f = some ys) {x : α} (hx : x ∈ xs) : ∃ y ∈ ys, f x = some y := by
  induction xs generalizing ys with
  | nil => cases hx
  | cons a rest ih =>
    rw [List.mapM_cons] at h
    obtain ⟨b, hb, h⟩ := Option.bind_eq_some_iff.mp h
    obtain ⟨bs, hbs, h⟩ := Option.bind_eq_some_iff.mp h
    cases h
    rcases List.mem_cons.mp hx with rfl | hx
    · exact ⟨b, List.mem_cons_self, hb⟩
    · obtain ⟨y, hy, hfy⟩ := ih hbs hx
      exact ⟨y, List.mem_cons_of_mem _ hy, hfy⟩

theorem mapM_const {α β : Type} {f : α → Option β} {b : β} {xs : List α}
    (h : ∀ x ∈ xs, f x = some b) : xs.mapM f = some (xs.map fun _ => b) := by
  induction xs with
  | nil => rfl
  | cons a rest ih =>
    rw [List.mapM_cons, h a List.mem_cons_self, ih fun x hx => h x (List.mem_cons_of_mem _ hx)]
    rfl

/-- The one configuration file: the exported root, and nothing else said of it. -/
structure TopConfigs (cfg : Json) : Prop where
  root : ∃ configs, cfg.getDict "configs" = some (.obj configs) ∧
    (∀ text, text ∈ configs.map Prod.fst ↔ text ∈ [caddyRoot]) ∧
    ∀ config ∈ configs, ∃ fields, Json.orElse (some config.2) (.obj []) = .obj fields ∧
      (Json.lookup fields "file".toList).any (Json.isStr · caddyRootFile) = true ∧
      (fields.all fun f => isConfigKey f.1) = true

theorem topConfigProblem_eq_nil_iff {config : Str × Json} : topConfigProblem config = some [] ↔
    ∃ fields, Json.orElse (some config.2) (.obj []) = .obj fields ∧
      (Json.lookup fields "file".toList).any (Json.isStr · caddyRootFile) = true ∧
      (fields.all fun f => isConfigKey f.1) = true := by
  unfold topConfigProblem
  cases Json.orElse (some config.2) (.obj []) with
  | obj fields =>
    by_cases hfile : (Json.lookup fields "file".toList).any (Json.isStr · caddyRootFile) = true ∧
      (fields.all fun f => isConfigKey f.1) = true
    · simp only [if_pos hfile, true_iff]
      exact ⟨fields, rfl, hfile⟩
    · simp only [if_neg hfile]
      constructor
      · intro h
        cases Option.some.inj h
      · rintro ⟨fields', heq, hfile'⟩
        cases heq
        exact absurd hfile' hfile
  | _ => simp

theorem topConfigProblems_eq_nil_iff {cfg : Json} :
    topConfigProblems cfg = some [] ↔ TopConfigs cfg := by
  unfold topConfigProblems
  constructor
  · intro h
    obtain ⟨top, htop, h⟩ := Option.bind_eq_some_iff.mp h
    cases top with
    | obj configs =>
      obtain ⟨each, heach, h⟩ := Option.bind_eq_some_iff.mp h
      replace h := Option.some.inj h
      rw [List.append_eq_nil_iff] at h
      obtain ⟨hset, hnone⟩ := h
      refine ⟨configs, htop, ?_, fun config hconfig => ?_⟩
      · apply sameSet_iff.mp
        by_contra hne
        rw [if_neg hne] at hset
        cases hset
      · obtain ⟨problems, hproblems, hconfigs⟩ := mem_of_mapM heach hconfig
        rw [List.flatten_eq_nil_iff.mp hnone problems hproblems] at hconfigs
        exact topConfigProblem_eq_nil_iff.mp hconfigs
    | _ => cases h
  · rintro ⟨configs, htop, hset, hconfigs⟩
    have heach : configs.mapM topConfigProblem = some (configs.map fun _ => []) :=
      mapM_const fun config hconfig => topConfigProblem_eq_nil_iff.mpr (hconfigs config hconfig)
    have hempty : (configs.map fun _ => ([] : List Str)).flatten = [] :=
      List.flatten_eq_nil_iff.mpr fun problems hproblems => (List.mem_map.mp hproblems).elim
        fun _ h => h.2.symm
    refine Option.bind_eq_some_iff.mpr ⟨.obj configs, htop, ?_⟩
    refine Option.bind_eq_some_iff.mpr ⟨_, heach, ?_⟩
    rw [if_pos (sameSet_iff.mpr hset), hempty]
    rfl

/-- Nothing is said of a configuration exactly when every service sees the host's paths and the
volumes of the tables, each once, the paths read only and the volumes written, no Docker socket
among them, and the exported root where it is to be. -/
theorem mountProblems_eq_nil_iff (pyStr : Json → Str) (listStr : List Str → Str) (cfg : Json)
    (services : List (Str × Json)) : mountProblems pyStr listStr cfg services = some [] ↔
      (∀ s ∈ services, ServiceMounts pyStr s.1 s.2) ∧ TopConfigs cfg := by
  unfold mountProblems
  constructor
  · intro h
    obtain ⟨each, heach, h⟩ := Option.bind_eq_some_iff.mp h
    obtain ⟨top, htop, h⟩ := Option.bind_eq_some_iff.mp h
    replace h := Option.some.inj h
    rw [List.append_eq_nil_iff] at h
    obtain ⟨hnone, rfl⟩ := h
    refine ⟨fun s hs => ?_, topConfigProblems_eq_nil_iff.mp htop⟩
    obtain ⟨problems, hproblems, hservice⟩ := mem_of_mapM heach hs
    rw [List.flatten_eq_nil_iff.mp hnone problems hproblems] at hservice
    exact serviceMountProblems_eq_nil_iff.mp hservice
  · rintro ⟨hservices, htop⟩
    have heach : (services.mapM fun s => serviceMountProblems pyStr listStr s.1 s.2) =
        some (services.map fun _ => []) :=
      mapM_const fun s hs => serviceMountProblems_eq_nil_iff.mpr (hservices s hs)
    rw [heach, topConfigProblems_eq_nil_iff.mpr htop]
    simp

end Guard

end Decisya.Deploy.Mounts
