import Decisya.Images.Overlay
import Mathlib.Data.List.DropRight
import Mathlib.Data.Nat.Notation

/-!
# The files of an image, layer over layer

`mergedView` walks the members of all layers in one pass, a whiteout being read where it
stands. In the image itself a whiteout is about the layers below its own, and an entry that
is no directory leaves nothing of a directory it replaces.
-/

namespace Decisya.Images

open Overlay

set_option autoImplicit false

abbrev Name := List Char

inductive MemberType where
  | dir
  | symlink
  | regular
  | hardLink
  | other
  deriving DecidableEq

structure Member where
  name : Name
  type : MemberType
  mode : ℕ
  linkname : Name
  paxHeaders : List (Name × Name)
  deriving DecidableEq

abbrev Layer := List Member

inductive Kind where
  | dir
  | sym
  | file
  | other
  deriving DecidableEq

structure Facts where
  kind : Kind
  mode : ℕ
  link : Name
  pax : List (Name × Name)
  deriving DecidableEq

/-! ## Names -/

/-- Leading `./` and `/`, over and over. -/
def stripLeading : Name → Name
  | '.' :: '/' :: rest => stripLeading rest
  | '/' :: rest => stripLeading rest
  | name => name

def backslash : Char := Char.ofNat 92

def normalize (name : Name) : Name :=
  stripLeading (name.map fun c => if c = backslash then '/' else c)

def rstripSlash (name : Name) : Name := name.rdropWhile fun c => decide (c = '/')

def startsWith (name start : Name) : Bool := start.isPrefixOf name

def rawName (name : Name) : Name := rstripSlash (normalize name)

/-- Debian's merged `/usr`. -/
def canonical (name : Name) : Name :=
  let n := rawName name
  if n = "bin".toList ∨ startsWith n "bin/".toList = true then "usr/bin".toList ++ n.drop 3
  else if n = "sbin".toList ∨ startsWith n "sbin/".toList = true then
    "usr/sbin".toList ++ n.drop 4
  else n

def rootLinks : List Name := ["bin".toList, "sbin".toList, "lib".toList, "lib64".toList]

def rootKey (raw : Name) : Name := "@root/".toList ++ raw

/-- `path.rsplit("/", 1)[-1]`. -/
def lastPart (path : Name) : Name := path.rtakeWhile fun c => decide (c ≠ '/')

/-- `path.rsplit("/", 1)[0]`, which is the whole path where it holds no slash. -/
def firstPart (path : Name) : Name :=
  if '/' ∈ path then path.take (path.length - (lastPart path).length - 1) else path

def opaqueMarker : Name := ".wh..wh..opq".toList

def whiteoutPrefix : Name := ".wh.".toList

/-! ## The merged view -/

def rootFacts (m : Member) : Facts :=
  ⟨if m.type = .symlink then .sym else if m.type = .dir then .dir else .other, m.mode, m.linkname, []⟩

def memberFacts (m : Member) : Facts :=
  ⟨if m.type = .dir then .dir else if m.type = .symlink then .sym
    else if m.type = .regular ∨ m.type = .hardLink then .file else .other,
    m.mode, m.linkname, m.paxHeaders⟩

/-- A key that is deleted, with all that start with it and a slash. -/
def removes (target key : Name) : Bool := decide (key = target) || startsWith key (target ++ ['/'])

def setKey (view : View Name Facts) (key : Name) (facts : Facts) : View Name Facts :=
  fun k => if k = key then some facts else view k

def deleteKeys (view : View Name Facts) (p : Name → Bool) : View Name Facts :=
  fun k => if p k = true then none else view k

def viewMember (view : View Name Facts) (m : Member) : View Name Facts :=
  let raw := rawName m.name
  if raw ∈ rootLinks then setKey view (rootKey raw) (rootFacts m)
  else
    let path := canonical m.name
    let base := lastPart path
    if base = opaqueMarker then
      let start := firstPart path ++ ['/']
      deleteKeys view fun k => startsWith k start
    else if startsWith base whiteoutPrefix = true then
      let target := firstPart path ++ '/' :: base.drop 4
      deleteKeys view fun k => removes target k
    else setKey view path (memberFacts m)

def mergedView (layers : List Layer) : View Name Facts :=
  layers.foldl (fun view layer => layer.foldl viewMember view) empty

/-! ## The image -/

/-- What a member is: an entry of its own, or a whiteout of a name or of all names in a
directory, which is `none` for the root. -/
inductive Entry where
  | file (path key : Name) (facts : Facts) (isDir : Bool)
  | hideAll (dir : Option Name)
  | hide (dir : Option Name) (name : Name)

def directoryOf (path : Name) : Option Name := if '/' ∈ path then some (firstPart path) else none

def entry (m : Member) : Entry :=
  let raw := rawName m.name
  if raw ∈ rootLinks then .file raw (rootKey raw) (rootFacts m) (decide (m.type = .dir))
  else
    let path := canonical m.name
    let base := lastPart path
    if base = opaqueMarker then .hideAll (directoryOf path)
    else if startsWith base whiteoutPrefix = true then .hide (directoryOf path) (base.drop 4)
    else .file path path (memberFacts m) (decide (m.type = .dir))

def Entry.isFile : Entry → Bool
  | file _ _ _ _ => true
  | _ => false

def keyOf (path : Name) : Name := if path ∈ rootLinks then rootKey path else path

def under (dir key : Name) : Bool := startsWith key (dir ++ ['/'])

def isRoot (key : Name) : Bool := decide (key = []) || decide (key = ['.'])

/-- The names a whiteout is about, and those an entry that is no directory takes the place
of besides its own. -/
def Entry.hides : Entry → Name → Bool
  | file path _ _ isDir, key => !isDir && under path key
  | hideAll none, key => !isRoot key
  | hideAll (some dir), key => under dir key
  | hide none name, key => decide (key = keyOf name) || under name key
  | hide (some dir) name, key => removes (dir ++ '/' :: name) key

def Entry.put : Entry → Option (Name × Facts)
  | file _ key facts _ => some (key, facts)
  | _ => none

def Entry.change (e : Entry) : Change Name Facts := ⟨e.put, e.hides⟩

/-- A layer's whiteouts come before its entries. -/
def layerChanges (layer : Layer) : List (Change Name Facts) :=
  ((layer.map entry).filter fun e => !e.isFile).map Entry.change ++
    ((layer.map entry).filter Entry.isFile).map Entry.change

def imageView (layers : List Layer) : View Name Facts := run empty (layers.flatMap layerChanges)

/-! ## When the two are equal -/

/-- What `mergedView` deletes at a member. -/
def strikes (m : Member) (key : Name) : Bool :=
  let raw := rawName m.name
  if raw ∈ rootLinks then false
  else
    let path := canonical m.name
    let base := lastPart path
    if base = opaqueMarker then startsWith key (firstPart path ++ ['/'])
    else if startsWith base whiteoutPrefix = true then
      removes (firstPart path ++ '/' :: base.drop 4) key
    else false

def viewChange (m : Member) : Change Name Facts := ⟨(entry m).put, strikes m⟩

theorem viewMember_eq (view : View Name Facts) (m : Member) :
    viewMember view m = Overlay.apply view (viewChange m) := by
  funext k
  by_cases hraw : rawName m.name ∈ rootLinks
  · simp [viewMember, Overlay.apply, viewChange, entry, strikes, hraw, Entry.put, setKey]
  · by_cases hall : lastPart (canonical m.name) = opaqueMarker
    · simp [viewMember, Overlay.apply, viewChange, entry, strikes, hraw, hall, Entry.put, deleteKeys]
    · by_cases hone : startsWith (lastPart (canonical m.name)) whiteoutPrefix = true
      · simp [viewMember, Overlay.apply, viewChange, entry, strikes, hraw, hall, hone, Entry.put,
          deleteKeys]
      · simp [viewMember, Overlay.apply, viewChange, entry, strikes, hraw, hall, hone, Entry.put,
          setKey]

theorem mergedView_eq (layers : List Layer) :
    mergedView layers = run empty (layers.flatMap fun layer => layer.map viewChange) := by
  have hlayer : ∀ (layer : Layer) (view : View Name Facts),
      layer.foldl viewMember view = run view (layer.map viewChange) := by
    intro layer
    induction layer with
    | nil => exact fun _ => rfl
    | cons m layer ih =>
      intro view
      rw [List.foldl_cons, ih, viewMember_eq]
      rfl
  have hall : ∀ view, layers.foldl (fun view layer => layer.foldl viewMember view) view =
      run view (layers.flatMap fun layer => layer.map viewChange) := by
    induction layers with
    | nil => exact fun _ => rfl
    | cons layer layers ih =>
      intro view
      rw [List.foldl_cons, ih, hlayer, List.flatMap_cons, run_append]
  exact hall empty

def entryKey (m : Member) : Option Name := (entry m).put.map Prod.fst

/-- `m` is the last entry of its key; `rest` follows it in its layer, `above` are the layers
over that one. -/
def IsLast (layers : List Layer) (m : Member) (rest : Layer) (above : List Layer) (key : Name) :
    Prop :=
  ∃ below before, layers = below ++ (before ++ m :: rest) :: above ∧ entryKey m = some key ∧
    ∀ n ∈ rest ++ above.flatten, entryKey n ≠ some key

/-- A later member deletes the key from the merged view. -/
def Struck (rest : Layer) (above : List Layer) (key : Name) : Prop :=
  ∃ n ∈ rest ++ above.flatten, strikes n key = true

/-- A later entry takes the place of a directory over the key, or a whiteout of a layer above
is about it. -/
def Hidden (rest : Layer) (above : List Layer) (key : Name) : Prop :=
  (∃ n ∈ rest ++ above.flatten, (entry n).isFile = true ∧ (entry n).hides key = true) ∨
    ∃ n ∈ above.flatten, (entry n).isFile = false ∧ (entry n).hides key = true

theorem change_key (m : Member) : (entry m).change.key = entryKey m := rfl

theorem viewChange_key (m : Member) : (viewChange m).key = entryKey m := rfl

theorem entryKey_of_not_isFile {m : Member} (h : (entry m).isFile = false) : entryKey m = none := by
  unfold entryKey
  cases he : entry m with
  | file path key facts isDir => simp [he, Entry.isFile] at h
  | hideAll dir => rfl
  | hide dir name => rfl

/-- What comes after an entry in the order in which the image takes the changes. -/
def changesAfter (rest : Layer) (above : List Layer) : List (Change Name Facts) :=
  ((rest.map entry).filter Entry.isFile).map Entry.change ++ above.flatMap layerChanges

theorem mem_layerChanges {layer : Layer} {c : Change Name Facts} :
    c ∈ layerChanges layer ↔ ∃ m ∈ layer, (entry m).change = c := by
  unfold layerChanges
  constructor
  · intro hc
    rcases List.mem_append.mp hc with hc | hc
    · obtain ⟨e, he, rfl⟩ := List.mem_map.mp hc
      obtain ⟨m, hm, rfl⟩ := List.mem_map.mp (List.mem_filter.mp he).1
      exact ⟨m, hm, rfl⟩
    · obtain ⟨e, he, rfl⟩ := List.mem_map.mp hc
      obtain ⟨m, hm, rfl⟩ := List.mem_map.mp (List.mem_filter.mp he).1
      exact ⟨m, hm, rfl⟩
  · rintro ⟨m, hm, rfl⟩
    have hmem := List.mem_map_of_mem (f := entry) hm
    cases hfile : (entry m).isFile with
    | false =>
      apply List.mem_append_left
      exact List.mem_map_of_mem (List.mem_filter.mpr ⟨hmem, by simp [hfile]⟩)
    | true =>
      apply List.mem_append_right
      exact List.mem_map_of_mem (List.mem_filter.mpr ⟨hmem, hfile⟩)

theorem mem_changesAfter {rest : Layer} {above : List Layer} {c : Change Name Facts} :
    c ∈ changesAfter rest above ↔ (∃ m ∈ rest, (entry m).isFile = true ∧ (entry m).change = c) ∨
      ∃ m ∈ above.flatten, (entry m).change = c := by
  simp only [changesAfter, List.mem_append, List.mem_map, List.mem_filter, List.mem_flatMap,
    mem_layerChanges, List.mem_flatten]
  constructor
  · rintro (⟨e, ⟨⟨m, hm, rfl⟩, hfile⟩, rfl⟩ | ⟨layer, hlayer, m, hm, rfl⟩)
    · exact .inl ⟨m, hm, hfile, rfl⟩
    · exact .inr ⟨m, ⟨layer, hlayer, hm⟩, rfl⟩
  · rintro (⟨m, hm, hfile, rfl⟩ | ⟨m, ⟨layer, hlayer, hm⟩, rfl⟩)
    · exact .inl ⟨_, ⟨⟨m, hm, rfl⟩, hfile⟩, rfl⟩
    · exact .inr ⟨layer, hlayer, m, hm, rfl⟩

theorem hidden_iff {rest : Layer} {above : List Layer} {key : Name} :
    Hidden rest above key ↔ (changesAfter rest above).any (fun c => c.clears key) = true := by
  rw [List.any_eq_true]
  constructor
  · rintro (⟨n, hn, hfile, hhides⟩ | ⟨n, hn, -, hhides⟩)
    · refine ⟨(entry n).change, mem_changesAfter.mpr ?_, hhides⟩
      rcases List.mem_append.mp hn with hn | hn
      · exact .inl ⟨n, hn, hfile, rfl⟩
      · exact .inr ⟨n, hn, rfl⟩
    · exact ⟨(entry n).change, mem_changesAfter.mpr (.inr ⟨n, hn, rfl⟩), hhides⟩
  · rintro ⟨c, hc, hhides⟩
    rcases mem_changesAfter.mp hc with ⟨n, hn, hfile, rfl⟩ | ⟨n, hn, rfl⟩
    · exact .inl ⟨n, List.mem_append_left _ hn, hfile, hhides⟩
    · cases hfile : (entry n).isFile with
      | true => exact .inl ⟨n, List.mem_append_right _ hn, hfile, hhides⟩
      | false => exact .inr ⟨n, hn, hfile, hhides⟩

theorem entry_put_of_key {m : Member} {key : Name} (h : entryKey m = some key) :
    ∃ facts, (entry m).put = some (key, facts) := by
  obtain ⟨⟨k, facts⟩, hput, rfl⟩ := Option.map_eq_some_iff.mp h
  exact ⟨facts, hput⟩

/-- The merged view and the image at the key of a last entry. -/
theorem views_at_last {layers : List Layer} {m : Member} {rest : Layer} {above : List Layer}
    {key : Name} (h : IsLast layers m rest above key) :
    (mergedView layers key = imageView layers key) ↔
      (Struck rest above key ↔ Hidden rest above key) := by
  obtain ⟨below, before, rfl, hkey, hlast⟩ := h
  obtain ⟨facts, hput⟩ := entry_put_of_key hkey
  have hmerged : mergedView (below ++ (before ++ m :: rest) :: above) key =
      if ((rest ++ above.flatten).map viewChange).any (fun c => c.clears key) = true then none
      else some facts := by
    rw [mergedView_eq]
    have hsplit : (below ++ (before ++ m :: rest) :: above).flatMap
        (fun layer => layer.map viewChange) =
        (below.flatten ++ before).map viewChange ++ viewChange m ::
          (rest ++ above.flatten).map viewChange := by
      simp [List.flatMap_def, List.map_flatten]
    rw [hsplit]
    apply run_of_last_put (show (viewChange m).put = some (key, facts) from hput)
    intro c hc
    obtain ⟨n, hn, rfl⟩ := List.mem_map.mp hc
    exact hlast n hn
  have himage : imageView (below ++ (before ++ m :: rest) :: above) key =
      if (changesAfter rest above).any (fun c => c.clears key) = true then none
      else some facts := by
    have hfile : (entry m).isFile = true := by
      by_contra hnot
      have hnone := entryKey_of_not_isFile (by simpa using hnot)
      rw [hkey] at hnone
      cases hnone
    have hsplit : (below ++ (before ++ m :: rest) :: above).flatMap layerChanges =
        (below.flatMap layerChanges ++
          ((((before ++ m :: rest).map entry).filter fun e => !e.isFile).map Entry.change ++
            ((before.map entry).filter Entry.isFile).map Entry.change)) ++
          (entry m).change :: changesAfter rest above := by
      simp [layerChanges, changesAfter, hfile]
    unfold imageView
    rw [hsplit]
    apply run_of_last_put hput
    intro c hc
    rcases mem_changesAfter.mp hc with ⟨n, hn, -, rfl⟩ | ⟨n, hn, rfl⟩
    · exact hlast n (List.mem_append_left _ hn)
    · exact hlast n (List.mem_append_right _ hn)
  have hstruck : Struck rest above key ↔
      ((rest ++ above.flatten).map viewChange).any (fun c => c.clears key) = true := by
    rw [List.any_map, List.any_eq_true]
    exact Iff.rfl
  rw [hmerged, himage, hstruck, hidden_iff]
  generalize ((rest ++ above.flatten).map viewChange).any (fun c => c.clears key) = struck
  generalize (changesAfter rest above).any (fun c => c.clears key) = hidden
  cases struck <;> cases hidden <;> simp

/-- A key that no member is the entry of is in neither. -/
theorem views_without_entry {layers : List Layer} {key : Name}
    (h : ∀ layer ∈ layers, ∀ m ∈ layer, entryKey m ≠ some key) :
    mergedView layers key = none ∧ imageView layers key = none := by
  constructor
  · rw [mergedView_eq]
    apply run_empty_of_not_put
    intro c hc
    obtain ⟨layer, hlayer, hc⟩ := List.mem_flatMap.mp hc
    obtain ⟨m, hm, rfl⟩ := List.mem_map.mp hc
    exact h layer hlayer m hm
  · apply run_empty_of_not_put
    intro c hc
    obtain ⟨layer, hlayer, hc⟩ := List.mem_flatMap.mp hc
    obtain ⟨m, hm, rfl⟩ := mem_layerChanges.mp hc
    exact h layer hlayer m hm

/-- The merged view is the image exactly when every last entry of a key that a later member
strikes is hidden in the image, and the other way round. -/
theorem mergedView_eq_imageView_iff (layers : List Layer) :
    mergedView layers = imageView layers ↔
      ∀ m rest above key, IsLast layers m rest above key →
        (Struck rest above key ↔ Hidden rest above key) := by
  constructor
  · intro heq m rest above key hlast
    exact (views_at_last hlast).mp (congrFun heq key)
  · intro h
    funext key
    by_cases hentry : ∃ layer ∈ layers, ∃ m ∈ layer, entryKey m = some key
    · obtain ⟨below, before, m, rest, above, hlayers, hkey, hrest, habove⟩ :=
        exists_last (fun m => entryKey m = some key) hentry
      have hlast : IsLast layers m rest above key := by
        refine ⟨below, before, hlayers, hkey, fun n hn => ?_⟩
        rcases List.mem_append.mp hn with hn | hn
        · exact hrest n hn
        · obtain ⟨layer, hlayer, hn⟩ := List.mem_flatten.mp hn
          exact habove layer hlayer n hn
      exact (views_at_last hlast).mpr (h m rest above key hlast)
    · have hnone : ∀ layer ∈ layers, ∀ m ∈ layer, entryKey m ≠ some key :=
        fun layer hlayer m hm hkey => hentry ⟨layer, hlayer, m, hm, hkey⟩
      obtain ⟨hmerged, himage⟩ := views_without_entry hnone
      rw [hmerged, himage]

def member (name : String) (type : MemberType) : Member := ⟨name.toList, type, 420, [], []⟩

/-- A tool in a directory of its own, and a layer over it. -/
def toolUnder (layer : Layer) : List Layer :=
  [[member "opt" .dir, member "opt/tool" .regular], layer]

theorem tool_in_view {layers : List Layer} {b : Bool}
    (hmerged : (mergedView layers "opt/tool".toList).isSome = b)
    (himage : (imageView layers "opt/tool".toList).isSome = !b) :
    mergedView layers ≠ imageView layers := by
  intro heq
  rw [heq, himage] at hmerged
  cases b <;> cases hmerged

/-- A whiteout at the root, a directory that becomes a file, and a whiteout of the layer that
puts the file there. -/
theorem mergedView_ne_imageView :
    mergedView (toolUnder [member ".wh.opt" .regular]) ≠
      imageView (toolUnder [member ".wh.opt" .regular]) ∧
    mergedView (toolUnder [member "opt" .regular]) ≠
      imageView (toolUnder [member "opt" .regular]) ∧
    mergedView (toolUnder [member "opt/tool" .regular, member "opt/.wh..wh..opq" .regular]) ≠
      imageView (toolUnder [member "opt/tool" .regular, member "opt/.wh..wh..opq" .regular]) := by
  refine ⟨tool_in_view (b := true) ?_ ?_, tool_in_view (b := true) ?_ ?_,
    tool_in_view (b := false) ?_ ?_⟩
  all_goals decide +kernel

end Decisya.Images
